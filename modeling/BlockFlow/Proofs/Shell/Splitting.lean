import Mathlib.Data.List.Forall2
import BlockFlow.Shell.Quote

/-!
# Splitting a command into words

How a shell splits a simple command into words: blanks stand between words, a backslash takes the
next character as it is, and between single quotes every character stands for itself. The reader
gives up where a shell would do more than that, which is at operators, expansions, patterns and
comments; so if there are words, there is nothing else for the shell to do.

## Key results

- `reads_quote`: a quoted word is read as the word
- `ReadsAll.intercalate`: texts with blanks between them are read one after the other
- `words_intercalate_quote`: quoted words with blanks between them are read as the words
-/

namespace BlockFlow.Shell

/-- Characters that, outside quotes, may stand for something other than themselves. -/
def activeChars : List Char := "|&;<>()$\x60\"*?[]^!#~\x7b\x7d\n\x00".toList

/-- Whether a character, outside quotes, may stand for something other than itself. -/
def isActive (c : Char) : Bool := activeChars.contains c

/-- What the next character stands after: nothing, an opening quote or a backslash. -/
inductive Quoting where
  | unquoted
  | between
  | escaped

/-- The words of a text, with the word that has begun. -/
def wordsFrom : Quoting → Option (List Char) → List Char → Option (List (List Char))
  | .unquoted, word?, [] => some word?.toList
  | .between, _, [] | .escaped, _, [] => none
  | .between, word?, c :: cs =>
    if c = '\'' then wordsFrom .unquoted word? cs
    else wordsFrom .between (some (word?.getD [] ++ [c])) cs
  | .escaped, word?, c :: cs =>
    -- A line goes on after a backslash at its end.
    if c = '\n' then wordsFrom .unquoted word? cs
    else wordsFrom .unquoted (some (word?.getD [] ++ [c])) cs
  | .unquoted, word?, c :: cs =>
    if c = '\'' then wordsFrom .between (some (word?.getD [])) cs
    else if c = '\\' then wordsFrom .escaped word? cs
    else if c = ' ' || c = '\t' then (wordsFrom .unquoted none cs).map (word?.toList ++ ·)
    else if isActive c then none
    else wordsFrom .unquoted (some (word?.getD [] ++ [c])) cs

/-- The words of a text, if a shell does no more with it than to split it and to take quotes and
backslashes away. -/
def words (text : String) : Option (List String) :=
  (wordsFrom .unquoted none text.toList).map (·.map String.ofList)

/-! ## One word -/

/-- A text that adds a word to what has been read of one. -/
def Reads (text word : List Char) : Prop :=
  ∀ word? rest, wordsFrom .unquoted word? (text ++ rest) =
    wordsFrom .unquoted (some (word?.getD [] ++ word)) rest

theorem Reads.append {a b v w : List Char} (ha : Reads a v) (hb : Reads b w) :
    Reads (a ++ b) (v ++ w) := by
  intro word? rest
  rw [List.append_assoc, ha, hb, Option.getD_some, List.append_assoc]

/-- A character that means itself outside quotes. -/
theorem reads_singleton {c : Char} (hactive : isActive c = false)
    (hc : c ≠ '\'' ∧ c ≠ '\\' ∧ c ≠ ' ' ∧ c ≠ '\t') : Reads [c] [c] := by
  intro word? rest
  obtain ⟨hquote, hslash, hblank, htab⟩ := hc
  show wordsFrom .unquoted word? (c :: rest) = _
  rw [wordsFrom]
  simp [hquote, hslash, hblank, htab, hactive]

theorem reads_of_forall {cs : List Char} (hne : cs ≠ []) (h : ∀ c ∈ cs, Reads [c] [c]) :
    Reads cs cs := by
  induction cs with
  | nil => exact absurd rfl hne
  | cons c cs ih =>
    have hc := h c List.mem_cons_self
    cases cs with
    | nil => exact hc
    | cons d cs =>
      exact hc.append (ih (List.cons_ne_nil _ _) (fun x hx => h x (List.mem_cons_of_mem _ hx)))

/-! ## Quoted words -/

theorem isActive_of_isPlain {c : Char} (h : isPlain c = true) :
    isActive c = false ∧ c ≠ '\'' ∧ c ≠ '\\' ∧ c ≠ ' ' ∧ c ≠ '\t' := by
  -- None of the characters in question is plain.
  have hne : ∀ d, isPlain d = false → c ≠ d := by
    rintro d hd rfl
    rw [h] at hd
    cases hd
  refine ⟨?_, hne _ (by decide), hne _ (by decide), hne _ (by decide), hne _ (by decide)⟩
  have hactive : (activeChars.all fun d => !isPlain d) = true := by decide
  rw [isActive, List.contains_eq_mem, decide_eq_false_iff_not]
  exact fun hmem => hne c (by simpa using List.all_eq_true.1 hactive c hmem) rfl

/-- What stands between single quotes is taken as it is. -/
theorem wordsFrom_quoteChars (cs word rest : List Char) :
    wordsFrom .between (some word) (cs.flatMap quoteChar ++ '\'' :: rest) =
      wordsFrom .unquoted (some (word ++ cs)) rest := by
  induction cs generalizing word with
  | nil => simp [wordsFrom]
  | cons c cs ih =>
    rw [List.flatMap_cons, List.append_assoc, quoteChar]
    split
    · next hc =>
      -- The quotes are closed, a quote is escaped, and the quotes are opened again.
      simp [wordsFrom, ih, hc]
    · next hc => simp [wordsFrom, hc, ih]

/-- A quoted word is read as the word. -/
theorem reads_quote (w : String) : Reads (quote w).toList w.toList := by
  unfold quote
  -- A plain word needs no quotes; any other stands between them.
  split
  · next h =>
    rw [Bool.and_eq_true, decide_eq_true_eq, List.all_eq_true] at h
    refine reads_of_forall (fun hnil => h.1 (String.toList_eq_nil_iff.1 hnil)) (fun c hc => ?_)
    obtain ⟨hactive, hordinary⟩ := isActive_of_isPlain (h.2 c hc)
    exact reads_singleton hactive hordinary
  · intro word? rest
    have hopen : wordsFrom .unquoted word? ('\'' :: (w.toList.flatMap quoteChar ++ '\'' :: rest)) =
        wordsFrom .between (some (word?.getD [])) (w.toList.flatMap quoteChar ++ '\'' :: rest) := by
      rw [wordsFrom]
      simp
    rw [String.toList_ofList, quoteChars, List.cons_append, List.append_assoc,
      List.singleton_append, hopen, wordsFrom_quoteChars]

theorem reads_equals : Reads ['='] ['='] := reads_singleton (by decide) (by decide)

/-- A quoted name and a quoted text, with an equals sign between them, are read as one word. -/
theorem reads_assignment (name w : String) :
    Reads ((quote name).toList ++ '=' :: (quote w).toList) (name.toList ++ '=' :: w.toList) :=
  (reads_quote name).append (reads_equals.append (reads_quote w))

/-! ## Many words -/

/-- A text that, between blanks, is read as these words. -/
structure ReadsAll (text : List Char) (ws : List (List Char)) : Prop where
  last : wordsFrom .unquoted none text = some ws
  more : ∀ rest, wordsFrom .unquoted none (text ++ ' ' :: rest) =
    (wordsFrom .unquoted none rest).map (ws ++ ·)

theorem Reads.readsAll {text word : List Char} (h : Reads text word) : ReadsAll text [word] where
  last := by
    have hread := h none []
    rw [List.append_nil] at hread
    rw [hread]
    rfl
  more rest := by
    rw [h none, wordsFrom]
    simp

/-- Words, a blank, and other words. -/
theorem ReadsAll.blank {a b : List Char} {vs ws : List (List Char)} (ha : ReadsAll a vs)
    (hb : ReadsAll b ws) : ReadsAll (a ++ ' ' :: b) (vs ++ ws) where
  last := by
    rw [ha.more, hb.last]
    rfl
  more rest := by
    rw [List.append_assoc, List.cons_append, ha.more, hb.more, Option.map_map]
    congr 1
    funext more
    exact (List.append_assoc _ _ _).symm

/-- Texts with blanks between them are read one after the other. -/
theorem ReadsAll.intercalate {texts : List (List Char)} {wss : List (List (List Char))}
    (h : List.Forall₂ ReadsAll texts wss) (hne : texts ≠ []) :
    ReadsAll ([' '].intercalate texts) wss.flatten := by
  induction h with
  | nil => exact absurd rfl hne
  | @cons text ws texts wss htext hrest ih =>
    cases hrest with
    | nil => simpa using htext
    | cons hnext hothers =>
      rw [List.intercalate_cons_cons, List.append_assoc, List.singleton_append, List.flatten_cons]
      exact htext.blank (ih (List.cons_ne_nil _ _))

theorem ReadsAll.words_eq {text : String} {ws : List String}
    (h : ReadsAll text.toList (ws.map String.toList)) : words text = some ws := by
  rw [words, h.last, Option.map_some, List.map_map]
  simp [Function.comp_def]

/-- Quoted words with blanks between them are read as the words. -/
theorem words_intercalate_quote (ws : List String) :
    words (" ".intercalate (ws.map quote)) = some ws := by
  cases ws with
  | nil => rfl
  | cons w ws =>
    have heach : List.Forall₂ ReadsAll (((w :: ws).map quote).map String.toList)
        ((w :: ws).map fun v => [v.toList]) := by
      rw [List.map_map, List.forall₂_map_left_iff, List.forall₂_map_right_iff, List.forall₂_same]
      exact fun v _ => (reads_quote v).readsAll
    have hall := ReadsAll.intercalate heach (by simp)
    refine ReadsAll.words_eq ?_
    rw [String.toList_intercalate]
    rwa [← List.flatMap_def, ← List.map_eq_flatMap] at hall

end BlockFlow.Shell
