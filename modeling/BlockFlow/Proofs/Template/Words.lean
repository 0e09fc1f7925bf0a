import Mathlib.Data.List.MinMax
import BlockFlow.Proofs.Template.Markers
import BlockFlow.Shell.Quote

/-!
# Words of a command template

A command template is a list of words with blanks between them. In an assignment, a name
in front of a hole, a marker in the name takes over the hole; the file that it then asks
for is one that no port has, unless a longer name has the marker too.

## Key results

- `hasMarker_quote`: quoting neither makes nor removes markers
- `filled_intercalate`: the holes of words with blanks between them are those of the words
- `exists_unfilled`: if a name has a marker, some assignment has a hole without a file
-/

namespace BlockFlow

namespace Template

/-! ## Quoting -/

private theorem isSome_marker?_quoteChars (c : Char) (cs : List Char) :
    (marker? (c :: cs.flatMap Shell.quoteChar)).isSome = (marker? (c :: cs)).isSome := by
  have hquote : ∀ x, Shell.quoteChar x = if x = '\'' then ['\'', '\\', '\'', '\''] else [x] :=
    fun _ => rfl
  rcases cs with _ | ⟨y, _ | ⟨z, cs⟩⟩
  · rfl
  all_goals unfold marker?; grind

theorem hasMarker_flatMap_quoteChar (cs : List Char) :
    hasMarker (cs.flatMap Shell.quoteChar) = hasMarker cs := by
  induction cs with
  | nil => rfl
  | cons c cs ih =>
    rw [List.flatMap_cons, Shell.quoteChar]
    split
    · next hc =>
      -- All characters in place of a quote are seams, and so is the quote.
      have hquote : ∀ b, hasMarker ('\'' :: b) = hasMarker b := fun b =>
        hasMarker_seam (a := []) rfl
      have hslash : ∀ b, hasMarker ('\\' :: b) = hasMarker b := fun b =>
        hasMarker_seam (a := []) rfl
      simp only [List.cons_append, List.nil_append, hc, hquote, hslash, ih]
    · rw [List.singleton_append, hasMarker, hasMarker, ih, isSome_marker?_quoteChars]

theorem hasMarker_quote (w : String) : hasMarker (Shell.quote w).toList = hasMarker w.toList := by
  unfold Shell.quote
  split
  · rfl
  · rw [String.toList_ofList, Shell.quoteChars]
    show hasMarker ([] ++ '\'' :: (w.toList.flatMap Shell.quoteChar ++ '\'' :: [])) = _
    rw [hasMarker_seam rfl, hasMarker_seam rfl, hasMarker_flatMap_quoteChar, hasMarker,
      Bool.false_or, Bool.or_false]

theorem mem_flatMap_quoteChar {c : Char} (hc : c ≠ '\'' ∧ c ≠ '\\') (cs : List Char) :
    c ∈ cs.flatMap Shell.quoteChar ↔ c ∈ cs := by
  induction cs with
  | nil => exact Iff.rfl
  | cons x cs ih =>
    rw [List.flatMap_cons, List.mem_append, ih, List.mem_cons, Shell.quoteChar]
    split
    · next hx => simp [hx, hc.1, hc.2]
    · simp

theorem mem_quote {c : Char} (hc : c ≠ '\'' ∧ c ≠ '\\') (w : String) :
    c ∈ (Shell.quote w).toList ↔ c ∈ w.toList := by
  unfold Shell.quote
  split
  · exact Iff.rfl
  · rw [String.toList_ofList, Shell.quoteChars]
    simp [mem_flatMap_quoteChar hc, hc.1]

/-- A word with a marker has a brace, and so is put between quotes. -/
theorem quote_of_hasMarker {w : String} (h : hasMarker w.toList = true) :
    (Shell.quote w).toList = '\'' :: (w.toList.flatMap Shell.quoteChar ++ ['\'']) := by
  have hbrace : '{' ∈ w.toList := by
    obtain ⟨a, d, b, hw⟩ := hasMarker_iff.1 h
    rw [hw]
    exact List.mem_append_right _ (List.mem_cons_self)
  have hplain : w.toList.all Shell.isPlain = false := by
    rw [List.all_eq_false]
    exact ⟨'{', hbrace, by decide⟩
  rw [Shell.quote, hplain, Bool.and_false, if_neg Bool.false_ne_true, String.toList_ofList]
  rfl

/-! ## Words -/

/-- A text whose holes stay what they are when a blank follows. -/
def Whole (w : List Char) : Prop :=
  ∀ rest, pieces (w ++ ' ' :: rest) = pieces w ++ .plain ' ' :: pieces rest

theorem whole_of_unmarked {w : List Char} (h : hasMarker w = false) : Whole w := by
  intro rest
  rw [pieces_seam rfl h, pieces_of_unmarked h, List.map_append]
  simp

theorem pieces_blank (rest : List Char) : pieces (' ' :: rest) = .plain ' ' :: pieces rest :=
  pieces_seam (a := []) rfl rfl

/-- A text that ends with the brace of a hole. -/
theorem whole_of_marked {w : List Char} (h : hasMarker w = true) (hbrace : '}' ∉ w) :
    Whole (w ++ ['}']) := by
  intro rest
  obtain ⟨a, d, b, -, hpieces⟩ := pieces_marked h hbrace
  have hnil := hpieces [] [] List.not_mem_nil
  have hrest := hpieces [] (' ' :: rest) List.not_mem_nil
  simp only [List.nil_append, List.append_nil] at hnil hrest
  rw [List.append_assoc, List.singleton_append, hrest, hnil, pieces_blank, pieces]
  simp

theorem Whole.blank {v w : List Char} (hv : Whole v) (hw : Whole w) : Whole (v ++ ' ' :: w) := by
  intro rest
  rw [List.append_assoc, List.cons_append, hv, hv, hw]
  simp

/-- The holes of words with blanks between them are the holes of the words. -/
theorem filled_intercalate {b : Binding} {ws : List (List Char)} (h : ∀ w ∈ ws, Whole w) :
    Filled b (pieces ([' '].intercalate ws)) ↔ ∀ w ∈ ws, Filled b (pieces w) := by
  induction ws with
  | nil =>
    rw [List.intercalate_nil, pieces]
    exact ⟨fun _ w hw => absurd hw List.not_mem_nil, fun _ => filled_nil b⟩
  | cons w ws ih =>
    cases ws with
    | nil => simp
    | cons v ws =>
      have hblank : ∀ ps, Filled b (.plain ' ' :: ps) ↔ Filled b ps := fun ps => by
        rw [← List.singleton_append, filled_append]
        exact and_iff_right (filled_plain b [' '])
      -- No hole of the first word goes on into the next one.
      rw [List.intercalate_cons_cons, List.append_assoc, List.singleton_append,
        h w List.mem_cons_self, filled_append, hblank,
        ih (fun x hx => h x (List.mem_cons_of_mem _ hx))]
      simp only [List.forall_mem_cons]

theorem whole_intercalate {ws : List (List Char)} (h : ∀ w ∈ ws, Whole w) :
    Whole ([' '].intercalate ws) := by
  induction ws with
  | nil => exact whole_of_unmarked rfl
  | cons w ws ih =>
    cases ws with
    | nil =>
      rw [List.intercalate_singleton]
      exact h w List.mem_cons_self
    | cons v ws =>
      rw [List.intercalate_cons_cons, List.append_assoc, List.singleton_append]
      exact (h w List.mem_cons_self).blank (ih (fun x hx => h x (List.mem_cons_of_mem _ hx)))

/-! ## Assignments -/

/-- A name, and a hole for the file at a port. -/
def assignmentChars (d : Direction) (name : String) (port : List Char) : List Char :=
  (Shell.quote name).toList ++ '=' :: holeText d port

variable {d : Direction} {name : String} {port : List Char}

theorem assignmentChars_eq : assignmentChars d name port =
    (Shell.quote name).toList ++ '=' :: (markerChars d ++ port) ++ ['}'] := by
  simp [assignmentChars, holeText, markerChars]

private theorem brace_not_mem_name (hname : '}' ∉ name.toList) :
    '}' ∉ (Shell.quote name).toList := by
  rwa [mem_quote (by decide)]

theorem whole_assignmentChars (hname : '}' ∉ name.toList) (hport : '}' ∉ port) :
    Whole (assignmentChars d name port) := by
  rw [assignmentChars_eq]
  refine whole_of_marked ?_ ?_
  · rw [hasMarker_seam rfl, show hasMarker (markerChars d ++ port) = true from
      hasMarker_of_append (a := []) d port, Bool.or_true]
  · have := brace_not_mem_name hname
    cases d <;> simp [markerChars, Direction.letter, this, hport]

/-- A name without a marker leaves the hole for the port. -/
theorem filled_assignment_of_unmarked {b : Binding} (hname : hasMarker name.toList = false)
    (hport : '}' ∉ port) :
    Filled b (pieces (assignmentChars d name port)) ↔
      (b.path? d (String.ofList port)).isSome = true := by
  have hmark : hasMarker (Shell.quote name).toList = false := by rwa [hasMarker_quote]
  have hhole : holeText d port = markerChars d ++ (port ++ '}' :: []) := rfl
  rw [assignmentChars, pieces_seam rfl hmark, hhole, pieces_marker hport, filled_append,
    filled_hole, pieces]
  exact ⟨fun h => h.2.1, fun h => ⟨filled_plain _ _, h, filled_nil b⟩⟩

/-- A name with a marker takes the hole over, together with what is in front of the port. -/
theorem hole_of_marked (hname : hasMarker name.toList = true) (hbrace : '}' ∉ name.toList)
    (hport : '}' ∉ port) :
    ∃ d' u, .hole d' (u ++ '=' :: (markerChars d ++ port)) ∈
      pieces (assignmentChars d name port) := by
  obtain ⟨a, d', u, -, hpieces⟩ :=
    pieces_marked (by rwa [hasMarker_quote]) (brace_not_mem_name hbrace)
  have hmore : '}' ∉ '=' :: (markerChars d ++ port) := by
    cases d <;> simp [markerChars, Direction.letter, hport]
  refine ⟨d', u, ?_⟩
  rw [assignmentChars_eq, List.append_assoc, hpieces _ [] hmore]
  exact List.mem_append_right _ List.mem_cons_self

/-- If the ports of one direction that end with `suffix` are those of the names, and no
other ports end so, then of names with markers the longest one has a hole without a file. -/
theorem exists_unfilled {b : Binding} {stem suffix : List Char} {names : List String}
    (hports : ∀ d' u, (b.path? d' (String.ofList (u ++ suffix))).isSome = true →
      ∃ n ∈ names, u = stem ++ n.toList)
    (hbrace : ∀ n ∈ names, '}' ∉ n.toList) (hstem : '}' ∉ stem) (hsuffix : '}' ∉ suffix)
    {n : String} (hn : n ∈ names) (hmarker : hasMarker n.toList = true) :
    ∃ n ∈ names, ¬Filled b (pieces (assignmentChars d n (stem ++ n.toList ++ suffix))) := by
  have hmem : n ∈ names.filter (fun n => hasMarker n.toList) := List.mem_filter.2 ⟨hn, hmarker⟩
  cases hmax : (names.filter (fun n => hasMarker n.toList)).argmax (·.toList.length) with
  | none => rw [List.argmax_eq_none.1 hmax] at hmem; cases hmem
  | some longest =>
    obtain ⟨hlongest, hmarked⟩ := List.mem_filter.1 (List.argmax_mem hmax)
    refine ⟨longest, hlongest, fun hfilled => ?_⟩
    have hport : '}' ∉ stem ++ longest.toList ++ suffix := by
      simp only [List.mem_append, not_or]
      exact ⟨⟨hstem, hbrace longest hlongest⟩, hsuffix⟩
    obtain ⟨d', u, hhole⟩ := hole_of_marked (d := d) hmarked (hbrace longest hlongest) hport
    -- The hole asks for the port of a longer name, which ends with the longest one.
    have hasked := hfilled _ _ hhole
    rw [show u ++ '=' :: (markerChars d ++ (stem ++ longest.toList ++ suffix)) =
      (u ++ '=' :: (markerChars d ++ (stem ++ longest.toList))) ++ suffix by simp] at hasked
    obtain ⟨other, hother, heq⟩ := hports _ _ hasked
    have hlength := congrArg List.length heq
    simp only [List.length_append, List.length_cons] at hlength
    have hshort : longest.toList.length < other.toList.length := by omega
    have hwhole : longest.toList <:+ stem ++ other.toList := by
      rw [← heq]
      exact ⟨u ++ '=' :: (markerChars d ++ stem), by simp⟩
    have hsuffix' : longest.toList <:+ other.toList :=
      List.suffix_of_suffix_length_le hwhole (List.suffix_append _ _) (Nat.le_of_lt hshort)
    obtain ⟨front, hfront⟩ := hsuffix'
    have hmarked' : hasMarker other.toList = true := hfront ▸ hasMarker_suffix hmarked
    have hle := List.le_of_mem_argmax (List.mem_filter.2 ⟨hother, hmarked'⟩) hmax
    exact absurd hle (Nat.not_le_of_lt hshort)

end Template

end BlockFlow
