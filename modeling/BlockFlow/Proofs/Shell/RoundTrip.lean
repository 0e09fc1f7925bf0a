import BlockFlow.Proofs.Shell.Arguments

/-!
# Quoting and splitting

Quoting is undone by splitting: however the words look, the text made of the quoted ones is split
into them again. Nothing in it is left for the shell to act on, since what stands outside quotes and
not behind a backslash are blanks and characters that mean themselves. So the shell that runs
commands makes nothing else of the text when it comes to it among the arguments of a command.

## Key results

- `active_free_of_words`: a text that can be split has nothing active outside quotes
- `words_quote_round_trip`: quoted words, and assignments of quoted words, are read back
-/

namespace BlockFlow.Shell

/-! ## What stands outside quotes -/

/-- The characters of a text that stand outside quotes and not behind a backslash. The quotes and
backslashes themselves are not among them. -/
def bare : Quoting → List Char → List Char
  | _, [] => []
  | .between, c :: cs => if c = '\'' then bare .unquoted cs else bare .between cs
  | .escaped, _ :: cs => bare .unquoted cs
  | .unquoted, c :: cs =>
    if c = '\'' then bare .between cs
    else if c = '\\' then bare .escaped cs
    else c :: bare .unquoted cs

/-- The characters of a text that a shell may take for something other than themselves. -/
def bareActive (text : String) : List Char := (bare .unquoted text.toList).filter isActive

/-- What is split into words has no active character outside quotes: the reader would have given up
there. -/
theorem not_active_of_wordsFrom {q : Quoting} {word? : Option (List Char)} {cs : List Char}
    {ws : List (List Char)} (h : wordsFrom q word? cs = some ws) :
    ∀ c ∈ bare q cs, isActive c = false := by
  induction cs generalizing q word? ws with
  | nil =>
    cases q <;> exact fun c hc => absurd hc List.not_mem_nil
  | cons c cs ih =>
    cases q with
    | between =>
      rw [wordsFrom] at h
      rw [bare]
      split at h
      · next hc => rw [if_pos hc]; exact ih h
      · next hc => rw [if_neg hc]; exact ih h
    | escaped =>
      rw [wordsFrom] at h
      rw [bare]
      split at h <;> exact ih h
    | unquoted =>
      rw [wordsFrom] at h
      rw [bare]
      split at h
      · next hquote => rw [if_pos hquote]; exact ih h
      · next hquote =>
        rw [if_neg hquote]
        split at h
        · next hslash => rw [if_pos hslash]; exact ih h
        · next hslash =>
          rw [if_neg hslash, List.forall_mem_cons]
          split at h
          · next hblank =>
            -- A blank is not active, and ends a word.
            obtain ⟨vs, hvs, -⟩ := Option.map_eq_some_iff.1 h
            refine ⟨?_, ih hvs⟩
            rw [Bool.or_eq_true, decide_eq_true_eq, decide_eq_true_eq] at hblank
            rcases hblank with rfl | rfl <;> decide
          · split at h
            · cases h
            · next hactive => exact ⟨by simpa using hactive, ih h⟩

theorem active_free_of_words {text : String} {ws : List String} (h : words text = some ws) :
    bareActive text = [] := by
  obtain ⟨vs, hvs, -⟩ := Option.map_eq_some_iff.1 h
  rw [bareActive, List.filter_eq_nil_iff]
  exact fun c hc => by rw [not_active_of_wordsFrom hvs c hc]; exact Bool.false_ne_true

/-! ## There and back -/

/-- An assignment of quoted words is one word. -/
theorem words_quote_assignment (name w : String) :
    words (quote name ++ "=" ++ quote w) = some [name ++ "=" ++ w] := by
  refine ReadsAll.words_eq ?_
  have hreads := (reads_assignment name w).readsAll
  rw [List.map_singleton]
  simpa using hreads

/-- Quoted words with blanks between them are split into the words, and a quoted name and a quoted
text with an equals sign between them are read as one word. In neither case is there anything
outside quotes that a shell would take for an expansion, a pattern, a comment, an operator or a home
directory, and as arguments of a command they are, for the shell, the words themselves. -/
theorem words_quote_round_trip :
    (∀ ws : List String, words (" ".intercalate (ws.map quote)) = some ws ∧
        bareActive (" ".intercalate (ws.map quote)) = [] ∧
          TakesAsArguments (" ".intercalate (ws.map quote)) ws) ∧
      ∀ a b : String, words (quote a ++ "=" ++ quote b) = some [a ++ "=" ++ b] ∧
        bareActive (quote a ++ "=" ++ quote b) = [] ∧
          TakesAsArguments (quote a ++ "=" ++ quote b) [a ++ "=" ++ b] := by
  refine ⟨fun ws => ?_, fun a b => ?_⟩
  · have hwords := words_intercalate_quote ws
    exact ⟨hwords, active_free_of_words hwords, takesAsArguments_of_words hwords⟩
  · have hwords := words_quote_assignment a b
    exact ⟨hwords, active_free_of_words hwords, takesAsArguments_of_words hwords⟩

/-- A quote within a word, an empty word, and a word that would be a pattern. -/
example : " ".intercalate (["it's", "", "*", "a/b"].map quote) = "'it'\\''s' '' '*' a/b" := by
  decide +kernel

end BlockFlow.Shell
