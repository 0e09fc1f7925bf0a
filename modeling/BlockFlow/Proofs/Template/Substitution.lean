import Mathlib.Data.List.Forall2
import Mathlib.Data.String.Basic
import BlockFlow.Proofs.Except
import BlockFlow.Proofs.Template.Markers
import BlockFlow.Task.Run

/-!
# Filling a command is one substitution

A template splits in one way only: read from the left, a hole starts at the first marker and ends
at the first closing brace after it, and the text behind the last hole has no marker that a brace
closes. Filling keeps the literal text and puts a quoted path in place of each hole. It goes on
behind the hole, so that no text that was put in is ever looked at.

The holes can also be found by byte offsets, and the text be cut at these. An offset may lie
behind the end of a text or inside a character, but none of those that are cut at does.

## Key results

- `Template.Splits.unique`, `Template.exists_splits`: a template splits in exactly one way
- `Template.isSome_cutAt?_iff`: where a text can be cut
- `Template.substitute?_eq`: cutting at byte offsets never fails, and it fills the same holes
- `TaskRun.command_substituted`: what filling the command of a task gives
-/

namespace BlockFlow

namespace Template

/-! ## Splitting -/

/-- A hole of a template, and the literal text in front of it. -/
structure Cut where
  literal : List Char
  direction : Direction
  port : List Char

/-- The text of the hole. -/
def Cut.hole (cut : Cut) : List Char := holeText cut.direction cut.port

/-- No marker of a text starts in its front part. -/
def Clear (front rest : List Char) : Prop :=
  ∀ a d b, front ++ rest = a ++ (markerChars d ++ b) → front.length ≤ a.length

/-- A text splits into holes, each behind its literal text, and the text behind the last hole. -/
inductive Splits : List Char → List Cut → List Char → Prop
  /-- No brace closes a marker. -/
  | rest {cs : List Char} (hopen : ∀ a d b, cs = a ++ (markerChars d ++ b) → '}' ∉ b) :
      Splits cs [] cs
  /-- The first marker opens a hole, which the next closing brace ends. -/
  | cut {cut : Cut} {rest last : List Char} {cuts : List Cut}
      (hfirst : Clear cut.literal (cut.hole ++ rest)) (hport : '}' ∉ cut.port)
      (hrest : Splits rest cuts last) :
      Splits (cut.literal ++ (cut.hole ++ rest)) (cut :: cuts) last

theorem holeText_append (d : Direction) (port rest : List Char) :
    holeText d port ++ rest = markerChars d ++ (port ++ '}' :: rest) := by
  simp [holeText, markerChars]

theorem Cut.hole_append (cut : Cut) (rest : List Char) :
    cut.hole ++ rest = markerChars cut.direction ++ (cut.port ++ '}' :: rest) :=
  holeText_append _ _ _

theorem markerChars_inj {d d' : Direction} {b b' : List Char}
    (h : markerChars d ++ b = markerChars d' ++ b') : d = d' ∧ b = b' := by
  have h₁ := marker?_eq_some.2 h
  have h₂ : marker? (markerChars d ++ b) = some (d, b) := marker?_eq_some.2 rfl
  exact Prod.mk.inj (Option.some.inj (h₂.symm.trans h₁))

theorem port_inj {port port' rest rest' : List Char} (hport : '}' ∉ port) (hport' : '}' ∉ port')
    (h : port ++ '}' :: rest = port' ++ '}' :: rest') : port = port' ∧ rest = rest' := by
  have h₁ : untilBrace (port ++ '}' :: rest) = some (port, rest) := untilBrace_append hport
  rw [h, untilBrace_append hport'] at h₁
  exact ⟨(Prod.mk.inj (Option.some.inj h₁)).1.symm, (Prod.mk.inj (Option.some.inj h₁)).2.symm⟩

/-- A text splits in at most one way. -/
theorem Splits.unique {cs last last' : List Char} {cuts cuts' : List Cut}
    (h : Splits cs cuts last) (h' : Splits cs cuts' last') : cuts = cuts' ∧ last = last' := by
  induction h generalizing cuts' with
  | rest hopen =>
    cases h' with
    | rest => exact ⟨rfl, rfl⟩
    | @cut cut rest _ _ hfirst hport hrest =>
      -- A brace closes the marker of the hole.
      have hbrace := hopen cut.literal cut.direction _ (by rw [cut.hole_append])
      exact absurd (List.mem_append_right _ List.mem_cons_self) hbrace
  | @cut cut rest last cuts hfirst hport hrest ih =>
    generalize hcs : cut.literal ++ (cut.hole ++ rest) = cs at h'
    cases h' with
    | rest hopen =>
      have hbrace := hopen cut.literal cut.direction _ (by rw [← hcs, cut.hole_append])
      exact absurd (List.mem_append_right _ List.mem_cons_self) hbrace
    | @cut cut' rest' _ _ hfirst' hport' hrest' =>
      rw [cut.hole_append] at hcs hfirst
      rw [cut'.hole_append] at hcs hfirst'
      -- Both holes start at the first marker.
      have hlength : cut.literal.length = cut'.literal.length :=
        Nat.le_antisymm (hfirst _ _ _ hcs) (hfirst' _ _ _ hcs.symm)
      obtain ⟨hliteral, htail⟩ := List.append_inj hcs hlength
      obtain ⟨hdirection, hrest''⟩ := markerChars_inj htail
      obtain ⟨hports, rfl⟩ := port_inj hport hport' hrest''
      obtain ⟨rfl, rfl⟩ := ih hrest'
      obtain ⟨literal, d, port⟩ := cut
      obtain ⟨literal', d', port'⟩ := cut'
      subst hliteral hdirection hports
      exact ⟨rfl, rfl⟩

/-- A text with a marker has a first one. -/
theorem exists_clear {cs : List Char} (h : hasMarker cs = true) :
    ∃ a d b, cs = a ++ (markerChars d ++ b) ∧ Clear a (markerChars d ++ b) := by
  induction cs with
  | nil => cases h
  | cons c cs ih =>
    -- The first marker is here, or else where it is in what follows.
    cases hm : marker? (c :: cs) with
    | some r =>
      exact ⟨[], r.1, r.2, marker?_eq_some.1 hm, fun a d b _ => Nat.zero_le _⟩
    | none =>
      rw [hasMarker, hm] at h
      obtain ⟨a, d, b, rfl, hclear⟩ := ih h
      refine ⟨c :: a, d, b, rfl, fun a' d' b' heq => ?_⟩
      cases a' with
      | nil => cases (marker?_eq_some.2 heq).symm.trans hm
      | cons c' a' => exact Nat.succ_le_succ (hclear a' d' b' (List.cons.inj heq).2)

/-- Every text splits. -/
theorem exists_splits (cs : List Char) : ∃ cuts last, Splits cs cuts last := by
  induction hn : cs.length using Nat.strongRecOn generalizing cs with
  | _ n ih =>
  by_cases hmarker : hasMarker cs = true
  · obtain ⟨a, d, b, rfl, hclear⟩ := exists_clear hmarker
    by_cases hbrace : '}' ∈ b
    · obtain ⟨port, rest, rfl, hport⟩ := List.eq_append_cons_of_mem hbrace
      obtain ⟨cuts, last, hrest⟩ := ih rest.length (by simp [← hn]; omega) rest rfl
      refine ⟨⟨a, d, port⟩ :: cuts, last, ?_⟩
      rw [← holeText_append] at hclear ⊢
      exact @Splits.cut ⟨a, d, port⟩ rest last cuts hclear hport hrest
    · refine ⟨[], _, .rest fun a' d' b' heq hmem => hbrace ?_⟩
      -- Every marker stands at the first one or behind it.
      have hsuffix : markerChars d' ++ b' <:+ markerChars d ++ b := by
        refine List.suffix_of_suffix_length_le ⟨a', heq.symm⟩ ⟨a, rfl⟩ ?_
        have hlength := congrArg List.length heq
        have := hclear a' d' b' heq
        simp only [List.length_append] at hlength ⊢
        omega
      have hmem' : '}' ∈ markerChars d ++ b := hsuffix.subset (List.mem_append_right _ hmem)
      rcases List.mem_append.1 hmem' with hmem' | hmem'
      · cases d <;> simp [markerChars, Direction.letter] at hmem'
      · exact hmem'
  · refine ⟨[], cs, .rest fun a d b heq => absurd ?_ hmarker⟩
    rw [heq]
    exact hasMarker_of_append d b

/-! ## The pieces of a split text -/

theorem pieces_of_clear {a rest : List Char} (h : Clear a rest) :
    pieces (a ++ rest) = a.map .plain ++ pieces rest := by
  induction a with
  | nil => rfl
  | cons c a ih =>
    have hnone : marker? (c :: (a ++ rest)) = none := by
      cases hm : marker? (c :: (a ++ rest)) with
      | none => rfl
      | some r => exact absurd (h [] r.1 r.2 (marker?_eq_some.1 hm)) (by simp)
    have hclear : Clear a rest := fun a' d b heq =>
      Nat.le_of_succ_le_succ (h (c :: a') d b (congrArg (c :: ·) heq))
    rw [List.cons_append, pieces_cons_of_none hnone, ih hclear]
    rfl

theorem untilBrace_eq_none {cs : List Char} (h : '}' ∉ cs) : untilBrace cs = none := by
  induction cs with
  | nil => rfl
  | cons c cs ih =>
    rw [List.mem_cons, not_or] at h
    rw [untilBrace, if_neg (Ne.symm h.1), ih h.2]
    rfl

/-- A text whose markers no brace closes stands for itself. -/
theorem pieces_of_open {cs : List Char}
    (h : ∀ a d b, cs = a ++ (markerChars d ++ b) → '}' ∉ b) : pieces cs = cs.map .plain := by
  induction cs with
  | nil => rw [pieces]; rfl
  | cons c cs ih =>
    -- A marker that nothing closes is left as it is, with all that follows.
    cases hm : marker? (c :: cs) with
    | none =>
      rw [pieces_cons_of_none hm,
        ih (fun a d b heq => h (c :: a) d b (congrArg (c :: ·) heq))]
      rfl
    | some r =>
      have hbrace := untilBrace_eq_none (h [] r.1 r.2 (marker?_eq_some.1 hm))
      rw [pieces]
      split
      · next hm' => cases hm'.symm.trans hm
      · next hm' =>
        obtain rfl := Option.some.inj (hm'.symm.trans hm)
        split
        · rfl
        · next hb => rw [hbrace] at hb; cases hb

/-! ## Filling a split text -/

variable {b : Binding}

/-- The file at the port of a hole. -/
def Binding.fileOf? (b : Binding) (cut : Cut) : Option Path :=
  b.path? cut.direction (String.ofList cut.port)

theorem fillPieces_plain_append (a : List Char) (ps : List Piece) :
    fillPieces b (a.map .plain ++ ps) = (fillPieces b ps).map (a ++ ·) := by
  induction a with
  | nil => cases hps : fillPieces b ps <;> simp [hps]
  | cons c a ih =>
    rw [List.map_cons, List.cons_append, fillPieces, ih]
    cases fillPieces b ps <;> rfl

/-- How filling goes on at a hole. -/
theorem fillPieces_cut {cut : Cut} {rest : List Char}
    (hfirst : Clear cut.literal (cut.hole ++ rest)) (hport : '}' ∉ cut.port) :
    fillPieces b (pieces (cut.literal ++ (cut.hole ++ rest))) =
      match b.fileOf? cut with
      | some path => (fillPieces b (pieces rest)).map
          (fun text => cut.literal ++ (Shell.quote path).toList ++ text)
      | none => .error (String.ofList cut.hole) := by
  rw [pieces_of_clear hfirst, fillPieces_plain_append, cut.hole_append, pieces_marker hport,
    fillPieces, fillPiece, Binding.fileOf?]
  cases b.path? cut.direction (String.ofList cut.port) with
  | none => rfl
  | some path => cases fillPieces b (pieces rest) <;> simp

theorem fillPieces_open {cs : List Char}
    (h : ∀ a d b, cs = a ++ (markerChars d ++ b) → '}' ∉ b) :
    fillPieces b (pieces cs) = .ok cs := by
  rw [pieces_of_open h, ← List.append_nil (cs.map Piece.plain), fillPieces_plain_append]
  exact congrArg Except.ok (List.append_nil cs)

/-- Filling gives a text if there is a file for every hole, and then the literal texts, each
followed by a quoted path. -/
theorem Splits.fillPieces_eq_ok {cs last text : List Char} {cuts : List Cut}
    (h : Splits cs cuts last) :
    fillPieces b (pieces cs) = .ok text ↔
      ∃ paths, List.Forall₂ (fun cut path => b.fileOf? cut = some path) cuts paths ∧
        text = (List.zipWith (fun cut path => cut.literal ++ (Shell.quote path).toList)
          cuts paths).flatten ++ last := by
  induction h generalizing text with
  | rest hopen =>
    rw [fillPieces_open hopen]
    constructor
    · intro h
      exact ⟨[], .nil, (Except.ok.inj h).symm⟩
    · rintro ⟨paths, hpaths, rfl⟩
      cases hpaths
      rfl
  | @cut cut rest last cuts hfirst hport hrest ih =>
    rw [fillPieces_cut hfirst hport]
    -- The first placeholder has a path, and the rest is filled after it.
    cases hfile : b.fileOf? cut with
    | none =>
      refine ⟨nofun, ?_⟩
      rintro ⟨paths, hpaths, -⟩
      cases hpaths with
      | cons hcut => rw [hfile] at hcut; cases hcut
    | some path =>
      constructor
      · intro h
        cases hrest : fillPieces b (pieces rest) with
        | error e => rw [hrest] at h; cases h
        | ok text' =>
          rw [hrest] at h
          obtain rfl := Except.ok.inj h
          obtain ⟨paths, hpaths, rfl⟩ := ih.1 hrest
          exact ⟨path :: paths, .cons hfile hpaths, by simp⟩
      · rintro ⟨paths, hpaths, rfl⟩
        cases hpaths with
        | @cons _ path' _ paths hcut hcuts =>
          obtain rfl := Option.some.inj (hfile.symm.trans hcut)
          rw [ih.2 ⟨paths, hcuts, rfl⟩]
          simp

/-- There are files for all holes if there is one for each. -/
theorem exists_files_iff {cuts : List Cut} :
    (∃ paths, List.Forall₂ (fun cut path => b.fileOf? cut = some path) cuts paths) ↔
      ∀ cut ∈ cuts, (b.fileOf? cut).isSome = true := by
  induction cuts with
  | nil => exact ⟨fun _ _ h => absurd h List.not_mem_nil, fun _ => ⟨[], .nil⟩⟩
  | cons cut cuts ih =>
    rw [List.forall_mem_cons, ← ih]
    constructor
    · rintro ⟨paths, hpaths⟩
      cases hpaths with
      | cons hcut hcuts => exact ⟨Option.isSome_iff_exists.2 ⟨_, hcut⟩, _, hcuts⟩
    · rintro ⟨hcut, paths, hcuts⟩
      obtain ⟨path, hpath⟩ := Option.isSome_iff_exists.1 hcut
      exact ⟨path :: paths, .cons hpath hcuts⟩

/-- Filling stops at the first hole without a file, and gives the text of this hole. -/
theorem Splits.fillPieces_eq_error {cs last : List Char} {cuts : List Cut} {hole : String}
    (h : Splits cs cuts last) :
    fillPieces b (pieces cs) = .error hole ↔
      ∃ before cut after, cuts = before ++ cut :: after ∧
        (∀ other ∈ before, (b.fileOf? other).isSome = true) ∧ b.fileOf? cut = none ∧
        hole = String.ofList cut.hole := by
  induction h with
  | rest hopen =>
    rw [fillPieces_open hopen]
    refine ⟨nofun, ?_⟩
    rintro ⟨before, cut, after, hcuts, -⟩
    simp at hcuts
  | @cut cut rest last cuts hfirst hport hrest ih =>
    rw [fillPieces_cut hfirst hport]
    -- Without a path the first placeholder is the one that is reported; else it is one behind it.
    cases hfile : b.fileOf? cut with
    | none =>
      constructor
      · intro h
        exact ⟨[], cut, cuts, rfl, by simp, hfile, (Except.error.inj h).symm⟩
      · rintro ⟨before, cut', after, hcuts, hbefore, -, rfl⟩
        cases before with
        | nil => rw [(List.cons.inj hcuts).1]
        | cons other before =>
          have hsome := hbefore other List.mem_cons_self
          rw [← (List.cons.inj hcuts).1, hfile] at hsome
          cases hsome
    | some path =>
      constructor
      · intro h
        cases hrest : fillPieces b (pieces rest) with
        | ok text => rw [hrest] at h; cases h
        | error e =>
          rw [hrest] at h
          obtain rfl := Except.error.inj h
          obtain ⟨before, cut', after, rfl, hbefore, hrest'⟩ := ih.1 hrest
          refine ⟨cut :: before, cut', after, rfl, ?_, hrest'⟩
          rw [List.forall_mem_cons]
          exact ⟨by rw [hfile]; rfl, hbefore⟩
      · rintro ⟨before, cut', after, hcuts, hbefore, hnone, rfl⟩
        cases before with
        | nil =>
          rw [← (List.cons.inj hcuts).1, hfile] at hnone
          cases hnone
        | cons other before =>
          rw [ih.2 ⟨before, cut', after, (List.cons.inj hcuts).2,
            fun x hx => hbefore x (List.mem_cons_of_mem _ hx), hnone, rfl⟩]
          rfl

/-! ## Byte offsets -/

/-- Cuts a text at a byte offset, unless it lies behind the end or inside a character. -/
def cutAt? : Nat → List Char → Option (List Char × List Char)
  | 0, cs => some ([], cs)
  | _ + 1, [] => none
  | n + 1, c :: cs =>
    if c.utf8Size ≤ n + 1 then
      (cutAt? (n + 1 - c.utf8Size) cs).map (fun parts => (c :: parts.1, parts.2))
    else none

theorem cutAt?_eq_some {n : Nat} {cs front rest : List Char} :
    cutAt? n cs = some (front, rest) ↔ cs = front ++ rest ∧ String.utf8Len front = n := by
  induction cs generalizing n front with
  | nil => cases n <;> cases front <;> simp [cutAt?, eq_comm]
  | cons c cs ih =>
    have hpos := c.utf8Size_pos
    -- Every character has one byte at least, so nothing is cut off by zero bytes.
    cases n with
    | zero =>
      cases front with
      | nil => simp [cutAt?, eq_comm]
      | cons c' front =>
        have := c'.utf8Size_pos
        simp [cutAt?]
        omega
    | succ n =>
      rw [cutAt?]
      cases front with
      | nil => split <;> simp
      | cons c' front =>
        split
        · next hle =>
          simp only [Option.map_eq_some_iff, Prod.exists, Prod.mk.injEq, List.cons.injEq,
            List.cons_append, String.utf8Len_cons]
          constructor
          · rintro ⟨front', rest', hcut, ⟨rfl, rfl⟩, rfl⟩
            obtain ⟨rfl, hlen⟩ := ih.1 hcut
            exact ⟨⟨rfl, rfl⟩, by omega⟩
          · rintro ⟨⟨rfl, rfl⟩, hlen⟩
            exact ⟨front, rest, ih.2 ⟨rfl, by omega⟩, ⟨rfl, rfl⟩, rfl⟩
        · next hlt =>
          refine ⟨nofun, ?_⟩
          rintro ⟨hcs, hlen⟩
          obtain rfl := (List.cons.inj hcs).1
          rw [String.utf8Len_cons] at hlen
          omega

theorem cutAt?_append (front rest : List Char) :
    cutAt? (String.utf8Len front) (front ++ rest) = some (front, rest) :=
  cutAt?_eq_some.2 ⟨rfl, rfl⟩

/-- A text can be cut at its valid positions, and nowhere else. -/
theorem isSome_cutAt?_iff {s : String} {n : Nat} :
    (cutAt? n s.toList).isSome = true ↔ String.Pos.Raw.IsValid s ⟨n⟩ := by
  rw [String.Pos.Raw.isValid_iff_exists_append, Option.isSome_iff_exists]
  constructor
  · rintro ⟨⟨front, rest⟩, h⟩
    obtain ⟨hs, rfl⟩ := cutAt?_eq_some.1 h
    refine ⟨String.ofList front, String.ofList rest, ?_, ?_⟩
    · rw [← String.ofList_append, ← hs, String.ofList_toList]
    · rw [String.rawEndPos_ofList]
  · rintro ⟨s₁, s₂, rfl, hn⟩
    refine ⟨(s₁.toList, s₂.toList), cutAt?_eq_some.2 ⟨String.toList_append, ?_⟩⟩
    rw [String.utf8Len_toList]
    exact (congrArg String.Pos.Raw.byteIdx hn).symm

/-- The text between two byte offsets. -/
def slice? (start stop : Nat) (cs : List Char) : Option (List Char) :=
  (cutAt? stop cs).bind fun upTo => (cutAt? start upTo.1).map (·.2)

/-- The byte offset at which a text first has a pattern. -/
def find? (pattern : List Char) : List Char → Option Nat
  | [] => if pattern = [] then some 0 else none
  | c :: cs =>
    if pattern <+: c :: cs then some 0 else (find? pattern cs).map (c.utf8Size + ·)

theorem find?_eq_some {pattern cs : List Char} {n : Nat} (h : find? pattern cs = some n) :
    ∃ a b, cs = a ++ (pattern ++ b) ∧ String.utf8Len a = n ∧
      ∀ a' b', cs = a' ++ (pattern ++ b') → a.length ≤ a'.length := by
  induction cs generalizing n with
  | nil =>
    rw [find?] at h
    split at h
    · next hp =>
      obtain rfl := Option.some.inj h
      exact ⟨[], [], by rw [hp]; rfl, rfl, fun _ _ _ => Nat.zero_le _⟩
    · cases h
  | cons c cs ih =>
    rw [find?] at h
    split at h
    · next hp =>
      obtain rfl := Option.some.inj h
      obtain ⟨b, hb⟩ := hp
      exact ⟨[], b, hb.symm, rfl, fun _ _ _ => Nat.zero_le _⟩
    · next hp =>
      obtain ⟨m, hm, rfl⟩ := Option.map_eq_some_iff.1 h
      obtain ⟨a, b, rfl, rfl, hfirst⟩ := ih hm
      refine ⟨c :: a, b, rfl, by rw [String.utf8Len_cons, Nat.add_comm], fun a' b' heq => ?_⟩
      -- An earlier occurrence would begin at this character, or lie behind it.
      cases a' with
      | nil => exact absurd ⟨b', heq.symm⟩ hp
      | cons c' a' => exact Nat.succ_le_succ (hfirst a' b' (List.cons.inj heq).2)

theorem find?_eq_none {pattern cs : List Char} (h : find? pattern cs = none) (a b : List Char) :
    cs ≠ a ++ (pattern ++ b) := by
  induction cs generalizing a with
  | nil =>
    rw [find?] at h
    split at h
    · cases h
    · next hp => simp [hp]
  | cons c cs ih =>
    rw [find?] at h
    split at h
    · cases h
    · next hp =>
      intro heq
      cases a with
      | nil => exact hp ⟨b, heq.symm⟩
      | cons c' a => exact ih (Option.map_eq_none_iff.1 h) a (List.cons.inj heq).2

/-- The byte offset of the first marker. -/
def findMarker? (cs : List Char) : Option Nat :=
  match find? (markerChars .input) cs, find? (markerChars .output) cs with
  | some i, some o => some (min i o)
  | i, o => i.or o

/-- Of two fronts of a text, the one with fewer bytes has fewer characters. -/
theorem length_le_of_utf8Len_le {a b a' b' : List Char} (heq : a ++ b = a' ++ b')
    (h : String.utf8Len a ≤ String.utf8Len a') : a.length ≤ a'.length := by
  rcases List.append_eq_append_iff.1 heq with ⟨c, rfl, -⟩ | ⟨c, rfl, -⟩
  · simp
  · rw [String.utf8Len_append] at h
    obtain rfl := String.utf8Len_eq_zero.1 (by omega : String.utf8Len c = 0)
    simp

private theorem clear_of_first {cs a b : List Char} {d : Direction}
    (hcs : cs = a ++ (markerChars d ++ b))
    (hfirst : ∀ a' b', cs = a' ++ (markerChars d ++ b') → a.length ≤ a'.length)
    (hother : ∀ d', d' ≠ d → ∀ a' b', cs = a' ++ (markerChars d' ++ b') → a.length ≤ a'.length) :
    Clear a (markerChars d ++ b) := by
  intro a' d' b' heq
  by_cases hd : d' = d
  · subst hd
    exact hfirst a' b' (hcs.trans heq)
  · exact hother d' hd a' b' (hcs.trans heq)

theorem findMarker?_eq_some {cs : List Char} {n : Nat} (h : findMarker? cs = some n) :
    ∃ a d b, cs = a ++ (markerChars d ++ b) ∧ String.utf8Len a = n ∧
      Clear a (markerChars d ++ b) := by
  unfold findMarker? at h
  cases hi : find? (markerChars .input) cs with
  | none =>
    cases ho : find? (markerChars .output) cs with
    | none => rw [hi, ho] at h; cases h
    | some o =>
      rw [hi, ho] at h
      obtain rfl := Option.some.inj h
      obtain ⟨a, b, hcs, hn, hfirst⟩ := find?_eq_some ho
      refine ⟨a, .output, b, hcs, hn, clear_of_first hcs hfirst fun d' hd a' b' heq => ?_⟩
      cases d' with
      | input => exact absurd heq (find?_eq_none hi a' b')
      | output => exact absurd rfl hd
  | some i =>
    obtain ⟨a, b, hcs, hn, hfirst⟩ := find?_eq_some hi
    cases ho : find? (markerChars .output) cs with
    | none =>
      rw [hi, ho] at h
      obtain rfl := Option.some.inj h
      refine ⟨a, .input, b, hcs, hn, clear_of_first hcs hfirst fun d' hd a' b' heq => ?_⟩
      cases d' with
      | input => exact absurd rfl hd
      | output => exact absurd heq (find?_eq_none ho a' b')
    | some o =>
      rw [hi, ho] at h
      obtain rfl := Option.some.inj h
      obtain ⟨a₂, b₂, hcs₂, hn₂, hfirst₂⟩ := find?_eq_some ho
      have hboth := hcs.symm.trans hcs₂
      -- Of two markers the one with the smaller offset stands first.
      rcases Nat.le_total i o with hle | hle
      · have hlength : a.length ≤ a₂.length := length_le_of_utf8Len_le hboth (by omega)
        refine ⟨a, .input, b, hcs, by omega, clear_of_first hcs hfirst fun d' hd a' b' heq => ?_⟩
        cases d' with
        | input => exact absurd rfl hd
        | output => exact Nat.le_trans hlength (hfirst₂ a' b' heq)
      · have hlength : a₂.length ≤ a.length := length_le_of_utf8Len_le hboth.symm (by omega)
        refine ⟨a₂, .output, b₂, hcs₂, by omega,
          clear_of_first hcs₂ hfirst₂ fun d' hd a' b' heq => ?_⟩
        cases d' with
        | input => exact Nat.le_trans hlength (hfirst a' b' heq)
        | output => exact absurd rfl hd

theorem findMarker?_eq_none {cs : List Char} (h : findMarker? cs = none) (a : List Char)
    (d : Direction) (b : List Char) : cs ≠ a ++ (markerChars d ++ b) := by
  unfold findMarker? at h
  cases hi : find? (markerChars .input) cs <;> cases ho : find? (markerChars .output) cs <;>
    rw [hi, ho] at h
  case none.none =>
    cases d with
    | input => exact find?_eq_none hi a b
    | output => exact find?_eq_none ho a b
  all_goals cases h

/-- Cuts out the first hole of a text: what stands in front of it, the hole, and what stands behind
it. The inner `none` says that no hole is left, the outer one that there is no cutting at an
offset. -/
def nextHole? (cs : List Char) : Option (Option (List Char × List Char × List Char)) :=
  match findMarker? cs with
  | none => some none
  | some start =>
    (cutAt? start cs).bind fun (literal, tail) =>
      match find? ['}'] tail with
      | none => some none
      | some stop => (cutAt? (stop + 1) tail).map fun (hole, rest) => some (literal, hole, rest)

theorem length_of_nextHole? {cs literal hole rest : List Char}
    (h : nextHole? cs = some (some (literal, hole, rest))) : rest.length < cs.length := by
  unfold nextHole? at h
  split at h
  · cases h
  · obtain ⟨⟨literal', tail⟩, hcut, hrest⟩ := Option.bind_eq_some_iff.1 h
    dsimp only at hrest
    split at hrest
    · cases hrest
    · obtain ⟨⟨hole', rest'⟩, hcut', heq⟩ := Option.map_eq_some_iff.1 hrest
      obtain ⟨rfl, rfl, rfl⟩ : literal' = literal ∧ hole' = hole ∧ rest' = rest := by
        simpa using heq
      rw [(cutAt?_eq_some.1 hcut).1, (cutAt?_eq_some.1 hcut').1]
      -- The hole has been cut off with its brace, so it is not empty.
      have hlen := (cutAt?_eq_some.1 hcut').2
      cases hole' with
      | nil => cases hlen
      | cons c hole => simp only [List.length_append, List.length_cons]; omega

/-- The direction of a hole with this text. -/
def directionOf (hole : List Char) : Direction :=
  if markerChars .input <+: hole then .input else .output

/-- Fills the holes of a text one after the other; `none` if the text would have to be cut at an
offset where it cannot be cut. -/
def substitute? (b : Binding) (cs : List Char) : Option (Except String (List Char)) :=
  match _h : nextHole? cs with
  | none => none
  | some none => some (.ok cs)
  | some (some (literal, hole, rest)) =>
    (slice? 3 (String.utf8Len hole - 1) hole).bind fun port =>
      match b.path? (directionOf hole) (String.ofList port) with
      | none => some (.error (String.ofList hole))
      | some path =>
        (substitute? b rest).map (·.map (literal ++ (Shell.quote path).toList ++ ·))
termination_by cs.length
decreasing_by exact length_of_nextHole? _h

theorem nextHole?_open {cs : List Char}
    (h : ∀ a d b, cs = a ++ (markerChars d ++ b) → '}' ∉ b) : nextHole? cs = some none := by
  unfold nextHole?
  cases hm : findMarker? cs with
  | none => rfl
  | some n =>
    obtain ⟨a, d, b, rfl, rfl, -⟩ := findMarker?_eq_some hm
    have hcut := cutAt?_append a (markerChars d ++ b)
    cases hb : find? ['}'] (markerChars d ++ b) with
    | none => simp only [hcut, hb, Option.bind_some]
    | some stop =>
      obtain ⟨x, y, heq, -⟩ := find?_eq_some hb
      -- The brace would have to stand behind the marker.
      have hmem : '}' ∈ markerChars d ++ b := by simp [heq]
      rcases List.mem_append.1 hmem with hmem | hmem
      · cases d <;> simp [markerChars, Direction.letter] at hmem
      · exact absurd hmem (h a d b rfl)

/-- The first closing brace in a hole and behind it is the one that ends the hole. -/
theorem find?_brace {front rest : List Char} (h : '}' ∉ front) :
    find? ['}'] (front ++ '}' :: rest) = some (String.utf8Len front) := by
  cases hb : find? ['}'] (front ++ '}' :: rest) with
  | none => exact absurd rfl (find?_eq_none hb front rest)
  | some n =>
    obtain ⟨a, b, heq, rfl, hfirst⟩ := find?_eq_some hb
    have ha : '}' ∉ a := by
      intro hmem
      obtain ⟨x, y, rfl, -⟩ := List.eq_append_cons_of_mem hmem
      have := hfirst x (y ++ '}' :: b) (by rw [heq]; simp)
      simp at this
    rw [(port_inj h ha heq).1]

theorem brace_not_mem_marker (d : Direction) {port : List Char} (h : '}' ∉ port) :
    '}' ∉ markerChars d ++ port := by
  cases d <;> simp [markerChars, Direction.letter, h]

theorem Cut.hole_eq (cut : Cut) : cut.hole = markerChars cut.direction ++ cut.port ++ ['}'] := by
  simpa using cut.hole_append []

theorem utf8Len_brace (front : List Char) :
    String.utf8Len (front ++ ['}']) = String.utf8Len front + 1 := by
  rw [String.utf8Len_append]
  rfl

theorem nextHole?_cut {cut : Cut} {rest : List Char}
    (hfirst : Clear cut.literal (cut.hole ++ rest)) (hport : '}' ∉ cut.port) :
    nextHole? (cut.literal ++ (cut.hole ++ rest)) = some (some (cut.literal, cut.hole, rest)) := by
  have hmarker : findMarker? (cut.literal ++ (cut.hole ++ rest)) =
      some (String.utf8Len cut.literal) := by
    cases hm : findMarker? (cut.literal ++ (cut.hole ++ rest)) with
    | none =>
      exact absurd (by rw [cut.hole_append]) (findMarker?_eq_none hm cut.literal cut.direction _)
    | some n =>
      obtain ⟨a, d, b, heq, rfl, hclear⟩ := findMarker?_eq_some hm
      -- Both are the first marker.
      have hlength : a.length = cut.literal.length := by
        refine Nat.le_antisymm ?_ (hfirst a d b heq)
        rw [cut.hole_append] at heq
        exact hclear _ _ _ heq.symm
      rw [(List.append_inj heq hlength.symm).1]
  have hfront := brace_not_mem_marker cut.direction hport
  have hhole : cut.hole ++ rest = markerChars cut.direction ++ cut.port ++ '}' :: rest := by
    rw [cut.hole_append, List.append_assoc]
  have hbrace : find? ['}'] (cut.hole ++ rest) =
      some (String.utf8Len (markerChars cut.direction ++ cut.port)) := by
    rw [hhole, find?_brace hfront]
  have hcut := cutAt?_append cut.literal (cut.hole ++ rest)
  have hcut' : cutAt? (String.utf8Len (markerChars cut.direction ++ cut.port) + 1)
      (cut.hole ++ rest) = some (cut.hole, rest) :=
    cutAt?_eq_some.2 ⟨rfl, by rw [cut.hole_eq, utf8Len_brace]⟩
  unfold nextHole?
  simp only [hmarker, hcut, hbrace, hcut', Option.bind_some, Option.map_some]

/-- The port of a hole stands behind the three bytes of the marker and in front of the brace. -/
theorem slice?_hole (cut : Cut) :
    slice? 3 (String.utf8Len cut.hole - 1) cut.hole = some cut.port := by
  have hstop : cutAt? (String.utf8Len cut.hole - 1) cut.hole =
      some (markerChars cut.direction ++ cut.port, ['}']) :=
    cutAt?_eq_some.2 ⟨cut.hole_eq, by rw [cut.hole_eq, utf8Len_brace, Nat.add_sub_cancel]⟩
  have hmarker : String.utf8Len (markerChars cut.direction) = 3 := by
    cases cut.direction <;> rfl
  have hstart : cutAt? 3 (markerChars cut.direction ++ cut.port) =
      some (markerChars cut.direction, cut.port) := cutAt?_eq_some.2 ⟨rfl, hmarker⟩
  rw [slice?, hstop, Option.bind_some, hstart]
  rfl

theorem directionOf_hole (cut : Cut) : directionOf cut.hole = cut.direction := by
  have hhole := cut.hole_append []
  rw [List.append_nil] at hhole
  unfold directionOf
  split
  · next h =>
    obtain ⟨b, hb⟩ := h
    exact (markerChars_inj (hb.trans hhole)).1
  · next h =>
    cases hd : cut.direction with
    | input => exact absurd ⟨_, by rw [hhole, hd]⟩ h
    | output => rfl

/-- Cutting at byte offsets never fails, and it fills the same holes. -/
theorem substitute?_eq (b : Binding) (cs : List Char) :
    substitute? b cs = some (fillPieces b (pieces cs)) := by
  obtain ⟨cuts, last, h⟩ := exists_splits cs
  induction h with
  | rest hopen =>
    rw [fillPieces_open hopen, substitute?]
    split
    · next hnext => cases (nextHole?_open hopen).symm.trans hnext
    · rfl
    · next hnext => cases (nextHole?_open hopen).symm.trans hnext
  | @cut cut rest last cuts hfirst hport hrest ih =>
    -- Both cut the text at the same place, fill the placeholder and go on behind it.
    have hcut := nextHole?_cut hfirst hport
    rw [fillPieces_cut hfirst hport, substitute?]
    split
    · next hnext => cases hcut.symm.trans hnext
    · next hnext => cases hcut.symm.trans hnext
    · next literal hole rest' hnext =>
      obtain ⟨rfl, rfl, rfl⟩ : cut.literal = literal ∧ cut.hole = hole ∧ rest = rest' := by
        simpa using hcut.symm.trans hnext
      rw [slice?_hole, Option.bind_some, directionOf_hole, ih, Binding.fileOf?]
      cases b.path? cut.direction (String.ofList cut.port) <;> rfl

end Template

namespace TaskRun

open Template

/-- The command with every placeholder filled, each found by its byte offset and cut out there;
`none` if an offset lies behind the end of the text or inside a character. -/
def sliceCommand? (run : TaskRun) : Option (Except ExecutionError String) :=
  (substitute? run.binding run.command.toList).map fun
    | .ok text => .ok (String.ofList text)
    | .error hole => .error (.unresolvedPlaceholder run.name hole)

theorem renderCommand_eq_ok {run : TaskRun} {text : String} :
    run.renderCommand = .ok text ↔
      fillPieces run.binding (pieces run.command.toList) = .ok text.toList := by
  rw [renderCommand, render]
  cases fillPieces run.binding (pieces run.command.toList) with
  | error e => simp
  | ok cs =>
    simp only [pure_eq_ok, ok_bind, Except.ok.injEq]
    exact ⟨fun h => by rw [← h, String.toList_ofList], fun h => by rw [h, String.ofList_toList]⟩

theorem renderCommand_eq_error {run : TaskRun} {e : ExecutionError} :
    run.renderCommand = .error e ↔
      ∃ hole, fillPieces run.binding (pieces run.command.toList) = .error hole ∧
        e = .unresolvedPlaceholder run.name hole := by
  rw [renderCommand, render]
  cases fillPieces run.binding (pieces run.command.toList) with
  | error hole => simp [eq_comm]
  | ok cs => simp

theorem sliceCommand?_eq (run : TaskRun) : run.sliceCommand? = some run.renderCommand := by
  rw [sliceCommand?, substitute?_eq, renderCommand, render]
  cases fillPieces run.binding (pieces run.command.toList) <;> rfl

/-- A command splits in exactly one way. Filling it gives a text if and only if there is a file for
every hole, in the direction of the hole, and this text is the literal text with the quoted paths
in place of the holes, whatever they contain. Otherwise the error names the first hole that has no
file. Nothing of this cuts the text at an offset where it cannot be cut. -/
theorem command_substituted (run : TaskRun) :
    ∃ cuts last, Splits run.command.toList cuts last ∧
      (∀ cuts' last', Splits run.command.toList cuts' last' → cuts' = cuts ∧ last' = last) ∧
      ((∃ text, run.renderCommand = .ok text) ↔
        ∀ cut ∈ cuts, (run.binding.fileOf? cut).isSome = true) ∧
      (∀ text, run.renderCommand = .ok text ↔
        ∃ paths, List.Forall₂ (fun cut path => run.binding.fileOf? cut = some path) cuts paths ∧
          text.toList =
            (List.zipWith (fun cut path => cut.literal ++ (Shell.quote path).toList)
              cuts paths).flatten ++ last) ∧
      (∀ e, run.renderCommand = .error e ↔
        ∃ before cut after, cuts = before ++ cut :: after ∧
          (∀ other ∈ before, (run.binding.fileOf? other).isSome = true) ∧
          run.binding.fileOf? cut = none ∧
          e = .unresolvedPlaceholder run.name (String.ofList cut.hole)) ∧
      run.sliceCommand? = some run.renderCommand := by
  obtain ⟨cuts, last, h⟩ := exists_splits run.command.toList
  have hok : ∀ text, run.renderCommand = .ok text ↔ _ := fun text =>
    renderCommand_eq_ok.trans h.fillPieces_eq_ok
  refine ⟨cuts, last, h, fun _ _ h' => h'.unique h, ?_, hok, fun e => ?_, sliceCommand?_eq run⟩
  · rw [← exists_files_iff]
    constructor
    · rintro ⟨text, htext⟩
      obtain ⟨paths, hpaths, -⟩ := (hok text).1 htext
      exact ⟨paths, hpaths⟩
    · rintro ⟨paths, hpaths⟩
      exact ⟨String.ofList _, (hok _).2 ⟨paths, hpaths, String.toList_ofList⟩⟩
  · rw [renderCommand_eq_error]
    constructor
    · rintro ⟨hole, herror, rfl⟩
      obtain ⟨before, cut, after, hcuts, hbefore, hnone, rfl⟩ := h.fillPieces_eq_error.1 herror
      exact ⟨before, cut, after, hcuts, hbefore, hnone, rfl⟩
    · rintro ⟨before, cut, after, hcuts, hbefore, hnone, rfl⟩
      exact ⟨_, h.fillPieces_eq_error.2 ⟨before, cut, after, hcuts, hbefore, hnone, rfl⟩, rfl⟩

end TaskRun

end BlockFlow
