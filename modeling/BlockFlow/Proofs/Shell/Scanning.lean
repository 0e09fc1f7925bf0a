import BlockFlow.Proofs.Shell.Expanding

/-!
# What the reader of scripts makes of a text that can be split

`words` splits a text by rules of its own, one character at a time. The shell that runs scripts
reads it in another way: it takes whole runs of characters at once, joins lines before it looks at
a character, and makes words of parts, which remember what has been quoted. In a text that `words`
splits it comes to the same words, by the same steps.

## Key results

- `front_of_wordsFrom`: what a text can begin with, if it is split
- `Reader.exists_skipBlanks`: the reader gets to the next word
- `Reader.exists_untilQuote`: it takes what stands between quotes as it is
- `Reader.exists_parts`: it reads a word to its end, as parts that spell it
-/

namespace BlockFlow.Shell

/-! ## The front of a text -/

/-- What a text that is split begins with, outside quotes. -/
inductive Front (word? : Option (List Char)) (ws : List (List Char)) : List Char → Prop
  | nil (h : ws = word?.toList) : Front word? ws []
  | quote {cs} (h : wordsFrom .between (some (word?.getD [])) cs = some ws) :
    Front word? ws ('\'' :: cs)
  | escape {c cs} (hc : c ≠ '\n')
    (h : wordsFrom .unquoted (some (word?.getD [] ++ [c])) cs = some ws) :
    Front word? ws ('\\' :: c :: cs)
  | join {cs} (h : wordsFrom .unquoted word? cs = some ws) : Front word? ws ('\\' :: '\n' :: cs)
  | blank {c cs vs} (hc : c = ' ' ∨ c = '\t') (h : wordsFrom .unquoted none cs = some vs)
    (hws : ws = word?.toList ++ vs) : Front word? ws (c :: cs)
  | bare {c cs} (hactive : isActive c = false)
    (hc : c ≠ '\'' ∧ c ≠ '\\' ∧ c ≠ ' ' ∧ c ≠ '\t')
    (h : wordsFrom .unquoted (some (word?.getD [] ++ [c])) cs = some ws) : Front word? ws (c :: cs)

theorem front_of_wordsFrom {word? : Option (List Char)} {cs : List Char} {ws : List (List Char)}
    (h : wordsFrom .unquoted word? cs = some ws) : Front word? ws cs := by
  cases cs with
  | nil => exact .nil (Option.some.inj h).symm
  | cons c cs =>
    -- The cases of the front are the tests of the splitting, in their order.
    rw [wordsFrom] at h
    split at h
    · next hquote =>
      subst hquote
      exact .quote h
    · next hquote =>
      split at h
      · next hslash =>
        subst hslash
        cases cs with
        | nil => cases h
        | cons d cs =>
          rw [wordsFrom] at h
          split at h
          · next hd =>
            subst hd
            exact .join h
          · next hd => exact .escape hd h
      · next hslash =>
        split at h
        · next hblank =>
          obtain ⟨vs, hvs, hws⟩ := Option.map_eq_some_iff.1 h
          rw [Bool.or_eq_true, decide_eq_true_eq, decide_eq_true_eq] at hblank
          exact .blank hblank hvs hws.symm
        · next hblank =>
          rw [Bool.or_eq_true, decide_eq_true_eq, decide_eq_true_eq, not_or] at hblank
          split at h
          · cases h
          · next hactive =>
            exact .bare (by simpa using hactive) ⟨hquote, hslash, hblank⟩ h

/-- A text that begins with an active character is not split. -/
theorem Front.isActive_head {word? : Option (List Char)} {ws : List (List Char)} {c : Char}
    {cs : List Char} (h : Front word? ws (c :: cs)) : isActive c = false := by
  cases h with
  | quote | escape | join => decide
  | blank hc => rcases hc with rfl | rfl <;> decide
  | bare hactive => exact hactive

/-- What is read between quotes goes on, and there is a closing quote. -/
theorem wordsFrom_between_append {run cs word : List Char} {ws : List (List Char)}
    (hrun : '\'' ∉ run) :
    wordsFrom .between (some word) (run ++ cs) = some ws ↔
      wordsFrom .between (some (word ++ run)) cs = some ws := by
  induction run generalizing word with
  | nil => rw [List.nil_append, List.append_nil]
  | cons c run ih =>
    rw [List.mem_cons, not_or] at hrun
    rw [List.cons_append, wordsFrom, if_neg (Ne.symm hrun.1), Option.getD_some, ih hrun.2,
      List.append_assoc, List.singleton_append]

theorem ne_of_isPlain {c d : Char} (hc : Reader.Place.word.isPlain c = true)
    (hd : Reader.Place.word.isPlain d = false) : c ≠ d := by
  rintro rfl
  rw [hc] at hd
  cases hd

/-- Characters that are plain for the reader are not active, or the text would not be split. -/
theorem wordsFrom_plain_append {run cs : List Char} {word : List Char} {ws : List (List Char)}
    (hrun : ∀ c ∈ run, Reader.Place.word.isPlain c = true)
    (h : wordsFrom .unquoted (some word) (run ++ cs) = some ws) :
    (∀ c ∈ run, isActive c = false ∧ c ≠ '\\') ∧
      wordsFrom .unquoted (some (word ++ run)) cs = some ws := by
  induction run generalizing word with
  | nil => exact ⟨fun c hc => absurd hc List.not_mem_nil, by rwa [List.append_nil]⟩
  | cons c run ih =>
    obtain ⟨hc, hrun⟩ := List.forall_mem_cons.1 hrun
    have hslash : c ≠ '\\' := ne_of_isPlain hc (by decide)
    rw [List.cons_append] at h
    generalize hafter : run ++ cs = after at h
    -- A plain character can only stand for itself.
    cases front_of_wordsFrom h with
    | quote => exact absurd rfl (ne_of_isPlain hc (by decide))
    | escape | join => exact absurd rfl hslash
    | blank hblank =>
      rcases hblank with rfl | rfl <;> exact absurd rfl (ne_of_isPlain hc (by decide))
    | bare hactive _ h =>
      subst hafter
      obtain ⟨hothers, hrest⟩ := ih hrun h
      refine ⟨List.forall_mem_cons.2 ⟨⟨hactive, hslash⟩, hothers⟩, ?_⟩
      rwa [Option.getD_some, List.append_assoc, List.singleton_append] at hrest

theorem wordsFrom_blank {word? : Option (List Char)} {c : Char} (hc : c = ' ' ∨ c = '\t')
    (cs : List Char) : wordsFrom .unquoted word? (c :: cs) =
      (wordsFrom .unquoted none cs).map (word?.toList ++ ·) := by
  rw [wordsFrom]
  rcases hc with rfl | rfl <;> rfl

/-- A word that has begun and ends here is the first one. -/
theorem exists_first {word cs : List Char} {ws : List (List Char)}
    (h : wordsFrom .unquoted (some word) cs = some ws)
    (hcs : ∀ c ∈ cs.head?, c = ' ' ∨ c = '\t') :
    ∃ ws', ws = word :: ws' ∧ wordsFrom .unquoted none cs = some ws' := by
  cases cs with
  | nil => exact ⟨[], (Option.some.inj h).symm, rfl⟩
  | cons c cs =>
    have hc : c = ' ' ∨ c = '\t' := hcs c rfl
    rw [wordsFrom_blank hc, Option.map_eq_some_iff] at h
    obtain ⟨vs, hvs, rfl⟩ := h
    exact ⟨vs, rfl, by rw [wordsFrom_blank hc, hvs]; rfl⟩

/-! ## The text that is left -/

/-- Nothing, or the rest from the end of a line on. -/
def Ended (rest : List Char) : Prop := ∀ c ∈ rest.head?, c = '\n'

/-- The text begins neither with a blank nor with a newline that a backslash takes away. -/
structure AtWord (cs : List Char) : Prop where
  notBlank : ∀ c ∈ cs.head?, c ≠ ' ' ∧ c ≠ '\t'
  notJoined : ∀ r, cs ≠ '\\' :: '\n' :: r

namespace Reader

theorem cases_joined (cs : List Char) :
    (∃ r, cs = '\\' :: '\n' :: r) ∨ (∀ r, cs ≠ '\\' :: '\n' :: r) ∧ joined cs = (cs, 0) := by
  by_cases h : ∃ r, cs = '\\' :: '\n' :: r
  · exact .inl h
  · rw [not_exists] at h
    refine .inr ⟨h, ?_⟩
    rw [joined]
    exact h

/-- The splitting, too, joins lines. -/
theorem exists_joined {word? : Option (List Char)} {cs tail : List Char} {ws : List (List Char)}
    (h : wordsFrom .unquoted word? cs = some ws) (htail : Ended tail) :
    ∃ cs', (joined (cs ++ tail)).1 = cs' ++ tail ∧ cs'.length ≤ cs.length ∧
      wordsFrom .unquoted word? cs' = some ws ∧ (∀ r, cs' ≠ '\\' :: '\n' :: r) ∧
        (cs' = cs ∨ ∃ r, cs = '\\' :: '\n' :: r) := by
  induction cs using joined.induct with
  | case1 cs r n hr ih =>
    cases front_of_wordsFrom h with
    | escape hc => exact absurd rfl hc
    | join h =>
      obtain ⟨cs', hcs', hlength, hwords, hnot, -⟩ := ih h
      exact ⟨cs', hcs', by simp; omega, hwords, hnot, .inr ⟨cs, rfl⟩⟩
    | blank hc => simp at hc
    | bare _ hc => exact absurd rfl hc.2.1
  | case2 cs hcs =>
    refine ⟨cs, ?_, Nat.le_refl _, h, hcs, .inl rfl⟩
    rcases cases_joined (cs ++ tail) with ⟨r, hr⟩ | ⟨-, hjoined⟩
    · cases cs with
      | nil =>
        -- What follows does not begin with a backslash.
        rw [List.nil_append] at hr
        exact absurd (htail '\\' (by rw [hr]; rfl)) (by decide)
      | cons c cs =>
        obtain ⟨rfl, hr'⟩ := List.cons.inj hr
        cases cs with
        | nil => cases h
        | cons d cs =>
          obtain ⟨rfl, -⟩ := List.cons.inj hr'
          exact absurd rfl (hcs cs)
    · rw [hjoined]

/-! ## Readers that leave a text -/

/-- A reader that comes to this and leaves this text, and changes nothing else but the line. -/
def Leaves {α : Type} (m : Reader α) (s : Source) (a : α) (rest : List Char) : Prop :=
  ∃ line, m.run s = .ok (a, { s with rest, line })

variable {α β : Type} {s : Source} {m : Reader α} {f : α → Reader β} {a : α} {b : β}
  {r r' : List Char}

theorem Leaves.bind (h : Leaves m s a r)
    (hf : ∀ line, Leaves (f a) { s with rest := r, line } b r') : Leaves (m >>= f) s b r' := by
  obtain ⟨line, hline⟩ := h
  obtain ⟨line', hline'⟩ := hf line
  refine ⟨line', ?_⟩
  rw [StateT.run_bind, hline]
  exact hline'

theorem leaves_pure (a : α) (s : Source) : Leaves (pure a) s a s.rest := ⟨s.line, rfl⟩

theorem leaves_rest (s : Source) : Leaves rest s s.rest s.rest := ⟨s.line, rfl⟩

theorem leaves_drop (n : Nat) (s : Source) : Leaves (drop n) s () (s.rest.drop n) := ⟨_, rfl⟩

theorem leaves_joinLines (s : Source) : Leaves joinLines s () (joined s.rest).1 := by
  -- Only behind a backslash may a line go on.
  by_cases h : ∃ cs, s.rest = '\\' :: cs
  · obtain ⟨cs, hcs⟩ := h
    refine ⟨s.line + (joined s.rest).2, ?_⟩
    rw [joinLines]
    show Except.ok ((), _) = _
    simp only [hcs]
  · refine ⟨s.line, ?_⟩
    rw [not_exists] at h
    rcases cases_joined s.rest with ⟨r, hr⟩ | ⟨-, hjoined⟩
    · exact absurd hr (h _)
    · rw [hjoined]
      show Except.ok ((), _) = Except.ok ((), s)
      congr 2
      dsimp only
      split
      · next hcs => exact absurd hcs (h _)
      · rfl

theorem leaves_peek (s : Source) : Leaves peek s (joined s.rest).1.head? (joined s.rest).1 :=
  (leaves_joinLines s).bind fun _ => (leaves_rest _).bind fun _ => leaves_pure _ _

/-! ## Blanks -/

theorem leaves_skipBlanks_stop {fuel : Nat} (hs : (joined s.rest).1 = r)
    (hr : ∀ c ∈ r.head?, c ≠ ' ' ∧ c ≠ '\t' ∧ c ≠ '#') :
    Leaves (skipBlanks (fuel + 1)) s () r := by
  have hpeek := leaves_peek s
  rw [hs] at hpeek
  rw [skipBlanks]
  refine hpeek.bind fun line => ?_
  split
  · next hc => exact absurd rfl (hr _ hc).1
  · next hc => exact absurd rfl (hr _ hc).2.1
  · next hc => exact absurd rfl (hr _ hc).2.2
  · exact leaves_pure _ _

theorem leaves_skipBlanks_blank {fuel : Nat} {c : Char} (hs : (joined s.rest).1 = c :: r)
    (hc : c = ' ' ∨ c = '\t')
    (h : ∀ line, Leaves (skipBlanks fuel) { s with rest := r, line } () r') :
    Leaves (skipBlanks (fuel + 1)) s () r' := by
  have hpeek := leaves_peek s
  rw [hs] at hpeek
  rw [skipBlanks]
  refine hpeek.bind fun line => ?_
  rcases hc with rfl | rfl <;> exact (leaves_drop 1 _).bind h

/-- Blanks are skipped up to the next word. -/
theorem exists_skipBlanks {tail cs : List Char} {ws : List (List Char)} (fuel : Nat)
    (h : wordsFrom .unquoted none cs = some ws) (htail : Ended tail) (hfuel : cs.length < fuel) :
    ∃ cs', (∀ s : Source, s.rest = cs ++ tail → Leaves (skipBlanks fuel) s () (cs' ++ tail)) ∧
      cs'.length ≤ cs.length ∧ wordsFrom .unquoted none cs' = some ws ∧ AtWord cs' := by
  induction fuel generalizing cs with
  | zero => exact absurd hfuel (Nat.not_lt_zero _)
  | succ fuel ih =>
    obtain ⟨cs', hjoined, hlength, hwords, hnot, -⟩ := exists_joined h htail
    cases cs' with
    | nil =>
      refine ⟨[], fun s hs => leaves_skipBlanks_stop (by rw [hs, hjoined]) fun c hc => ?_,
        Nat.zero_le _, hwords, by simp, hnot⟩
      obtain rfl := htail c hc
      decide
    | cons c cs' =>
      rw [List.length_cons] at hlength
      by_cases hblank : c = ' ' ∨ c = '\t'
      · -- One blank is gone.
        rw [wordsFrom_blank hblank, Option.map_eq_some_iff] at hwords
        obtain ⟨vs, hvs, rfl⟩ := hwords
        obtain ⟨cs'', hleaves, hlength', hwords', hword⟩ := ih hvs (by omega)
        refine ⟨cs'', fun s hs => ?_, by omega, hwords', hword⟩
        exact leaves_skipBlanks_blank (by rw [hs, hjoined]; rfl) hblank fun line => hleaves _ rfl
      · rw [not_or] at hblank
        refine ⟨c :: cs', fun s hs => leaves_skipBlanks_stop (by rw [hs, hjoined]) ?_, hlength,
          hwords, ?_, hnot⟩
        · rintro d ⟨⟩
          refine ⟨hblank.1, hblank.2, ?_⟩
          rintro rfl
          cases (front_of_wordsFrom hwords).isActive_head
        · rintro d ⟨⟩
          exact hblank

/-! ## Words that have begun -/

/-- The parts that have been read of a word, and the characters of the word so far. -/
structure Begun (before : List Part) (word? : Option (List Char)) : Prop where
  settled : ∀ p ∈ before, p.Settled
  spelling : before.reverse.flatMap Part.chars = word?.getD []
  nonempty : word?.isSome → before ≠ []

theorem begun_nil : Begun [] none := ⟨by simp, rfl, by simp⟩

theorem Begun.push {before : List Part} {word? : Option (List Char)} {t : String} {quoted : Bool}
    (h : Begun before word?) (ht : (Part.text t quoted).Settled) :
    Begun (pushPart (.text t quoted) before) (some (word?.getD [] ++ t.toList)) := by
  rcases pushPart_cases t quoted before with hpush | ⟨u, ps, rfl, hpush⟩
  · rw [hpush]
    refine ⟨List.forall_mem_cons.2 ⟨ht, h.settled⟩, ?_, fun _ => List.cons_ne_nil _ _⟩
    rw [Option.getD_some, ← h.spelling]
    simp [Part.chars]
  · rw [hpush]
    obtain ⟨hu, hps⟩ := List.forall_mem_cons.1 h.settled
    refine ⟨List.forall_mem_cons.2 ⟨settled_append hu ht, hps⟩, ?_, fun _ => List.cons_ne_nil _ _⟩
    rw [Option.getD_some, ← h.spelling]
    simp [Part.chars]

theorem Begun.spells {before : List Part} {word : List Char} (h : Begun before (some word)) :
    Spells before.reverse word :=
  ⟨fun p hp => h.settled p (List.mem_reverse.1 hp), h.spelling, by simpa using h.nonempty rfl⟩

/-! ## Quotes -/

theorem exists_run (p : Char → Bool) (cs : List Char) : ∃ run after, cs = run ++ after ∧
    (∀ c ∈ run, p c = true) ∧ ∀ c ∈ after.head?, p c = false := by
  refine ⟨cs.takeWhile p, cs.dropWhile p, List.takeWhile_append_dropWhile.symm,
    List.all_eq_true.1 List.all_takeWhile, fun c hc => ?_⟩
  have hhead := List.head?_dropWhile_not p cs
  rwa [Option.mem_def.1 hc] at hhead

theorem takeWhile_run {p : Char → Bool} {run after : List Char} (hrun : ∀ c ∈ run, p c = true)
    (hafter : ∀ c ∈ after.head?, p c = false) : (run ++ after).takeWhile p = run := by
  rw [List.takeWhile_append_of_pos hrun]
  cases after with
  | nil => exact List.append_nil run
  | cons c after => rw [List.takeWhile_cons_of_neg (by simp [hafter c rfl]), List.append_nil]

theorem leaves_afterNewline {quoted : Bool} {before : List Part} (hs : s.rest = '\n' :: r) :
    Leaves (afterNewline .command quoted before) s (pushPart (.text "\n" quoted) before) r := by
  rw [afterNewline]
  refine (leaves_drop 1 s).bind fun line => ?_
  rw [hs]
  exact leaves_pure _ _

/-- Between quotes, characters up to a quote or a newline are read at once. -/
def inRun (c : Char) : Bool := c ≠ '\'' && c ≠ '\n'

section Quotes

variable {fuel : Nat} {before before' : List Part} {run : List Char}

theorem leaves_untilQuote_quote (hrun : ∀ c ∈ run, inRun c = true)
    (hs : s.rest = run ++ '\'' :: r) :
    Leaves (untilQuote .command (fuel + 1) before) s
      (pushPart (.text (String.ofList run) true) before) r := by
  have htake : s.rest.takeWhile (fun c => c ≠ '\'' && c ≠ '\n') = run := by
    rw [hs]
    exact takeWhile_run hrun (by rintro c ⟨⟩; decide)
  have hdrop : s.rest.drop run.length = '\'' :: r := by rw [hs, List.drop_left]
  rw [untilQuote]
  refine (leaves_rest s).bind fun line => ?_
  simp only [htake]
  refine (leaves_drop _ _).bind fun line => (leaves_rest _).bind fun line => ?_
  simp only [hdrop]
  exact (leaves_drop 1 _).bind fun line => leaves_pure _ _

theorem leaves_untilQuote_newline (hrun : ∀ c ∈ run, inRun c = true)
    (hs : s.rest = run ++ '\n' :: r)
    (h : ∀ line, Leaves (untilQuote .command fuel
      (pushPart (.text "\n" true) (pushPart (.text (String.ofList run) true) before)))
      { s with rest := r, line } before' r') :
    Leaves (untilQuote .command (fuel + 1) before) s before' r' := by
  have htake : s.rest.takeWhile (fun c => c ≠ '\'' && c ≠ '\n') = run := by
    rw [hs]
    exact takeWhile_run hrun (by rintro c ⟨⟩; decide)
  have hdrop : s.rest.drop run.length = '\n' :: r := by rw [hs, List.drop_left]
  rw [untilQuote]
  refine (leaves_rest s).bind fun line => ?_
  simp only [htake]
  refine (leaves_drop _ _).bind fun line => (leaves_rest _).bind fun line => ?_
  simp only [hdrop]
  exact (leaves_afterNewline rfl).bind h

end Quotes

/-- Up to the closing quote, the reader takes what the splitting takes. -/
theorem exists_untilQuote {word cs : List Char} {ws : List (List Char)} {before : List Part}
    (fuel : Nat) (h : wordsFrom .between (some word) cs = some ws)
    (hbegun : Begun before (some word)) (hfuel : cs.length < fuel) (tail : List Char) :
    ∃ before' word' cs', (∀ s : Source, s.rest = cs ++ tail →
        Leaves (untilQuote .command fuel before) s before' (cs' ++ tail)) ∧
      Begun before' (some word') ∧ wordsFrom .unquoted (some word') cs' = some ws ∧
        cs'.length < cs.length := by
  induction fuel generalizing word cs before with
  | zero => exact absurd hfuel (Nat.not_lt_zero _)
  | succ fuel ih =>
    obtain ⟨run, after, rfl, hrun, hafter⟩ := exists_run inRun cs
    have hquote : '\'' ∉ run := fun hmem => absurd (hrun _ hmem) (by decide)
    rw [wordsFrom_between_append hquote] at h
    have hrunSettled : (Part.text (String.ofList run) true).Settled := by rintro ⟨⟩
    have hpush := hbegun.push hrunSettled
    rw [Option.getD_some, String.toList_ofList] at hpush
    cases after with
    | nil => cases h
    | cons c after =>
      -- A run ends at the closing quote or at the end of a line, after which the quote goes on.
      have hc : c = '\'' ∨ c = '\n' := by
        have hnot := hafter c rfl
        simpa [inRun, or_iff_not_imp_left] using hnot
      rw [List.length_append, List.length_cons] at hfuel ⊢
      rcases hc with rfl | rfl
      · rw [wordsFrom, if_pos rfl] at h
        refine ⟨_, _, after, fun s hs => ?_, hpush, h, by omega⟩
        exact leaves_untilQuote_quote hrun (by rw [hs, List.append_assoc]; rfl)
      · rw [wordsFrom, if_neg (by decide), Option.getD_some] at h
        have hnewline : (Part.text "\n" true).Settled := by rintro ⟨⟩
        obtain ⟨before', word', cs', hleaves, hbegun', hwords, hlength⟩ :=
          ih h (hpush.push hnewline) (by omega)
        refine ⟨before', word', cs', fun s hs => ?_, hbegun', hwords, by omega⟩
        exact leaves_untilQuote_newline hrun (by rw [hs, List.append_assoc]; rfl)
          fun line => hleaves _ rfl

/-! ## Parts -/

variable {script : Bool → Reader Command} {fuel : Nat} {before before' : List Part} {c d : Char}
  {tail cs : List Char} {v : Word}

theorem leaves_parts_end (hs : (joined s.rest).1 = r) (hr : ∀ c ∈ r.head?, endsWord c = true) :
    Leaves (parts script .command (fuel + 1) .word before) s before.reverse r := by
  unfold parts
  refine (leaves_joinLines s).bind fun line => (leaves_rest _).bind fun line => ?_
  rw [hs]
  cases r with
  | nil => exact leaves_pure _ _
  | cons c r =>
    simp only [Place.endsAt, hr c rfl, if_true]
    exact leaves_pure _ _

theorem leaves_parts_quote (hs : (joined s.rest).1 = '\'' :: tail)
    (hquote : ∀ line, Leaves (untilQuote .command fuel (pushPart (.text "" true) before))
      { s with rest := tail, line } before' r)
    (hrest : ∀ line, Leaves (parts script .command fuel .word before')
      { s with rest := r, line } v r') :
    Leaves (parts script .command (fuel + 1) .word before) s v r' := by
  unfold parts
  refine (leaves_joinLines s).bind fun line => (leaves_rest _).bind fun line => ?_
  simp only [hs]
  refine (leaves_drop 1 _).bind fun line => (hquote line).bind hrest

theorem leaves_parts_escape (hs : (joined s.rest).1 = '\\' :: d :: tail)
    (hrest : ∀ line, Leaves (parts script .command fuel .word
      (pushPart (.text (String.ofList [d]) true) before)) { s with rest := tail, line } v r) :
    Leaves (parts script .command (fuel + 1) .word before) s v r := by
  unfold parts
  refine (leaves_joinLines s).bind fun line => (leaves_rest _).bind fun line => ?_
  simp only [hs]
  exact (leaves_drop 2 _).bind hrest

theorem leaves_parts_bare {run : List Char} (hs : (joined s.rest).1 = c :: (run ++ r))
    (hc : Place.word.isPlain c = true) (hrun : ∀ d ∈ run, Place.word.isPlain d = true)
    (hr : ∀ d ∈ r.head?, Place.word.isPlain d = false)
    (hrest : ∀ line, Leaves (parts script .command fuel .word
      (pushPart (.text (String.ofList (c :: run)) false) before)) { s with rest := r, line } v r') :
    Leaves (parts script .command (fuel + 1) .word before) s v r' := by
  have hne : ∀ d, Place.word.isPlain d = false → c ≠ d := fun d => ne_of_isPlain hc
  have hends : endsWord c = false := by
    rw [Place.isPlain, Bool.and_eq_true] at hc
    simpa using hc.2
  have htake : (run ++ r).takeWhile (Place.isPlain · .word) = run := takeWhile_run hrun hr
  unfold parts
  refine (leaves_joinLines s).bind fun line => (leaves_rest _).bind fun line => ?_
  simp only [hs, Place.endsAt, hends, hne '\n' (by decide), hne '\\' (by decide),
    hne '\'' (by decide), hne '"' (by decide), hne '$' (by decide), hne backquote (by decide),
    hc, htake, decide_false, Bool.false_and, if_false, if_true, Bool.false_eq_true]
  refine (leaves_drop _ _).bind fun line => ?_
  simp only [List.length_cons, List.drop_succ_cons, List.drop_left]
  exact hrest line

theorem isPlain_of_bare (hactive : isActive c = false)
    (hc : c ≠ '\'' ∧ c ≠ '\\' ∧ c ≠ ' ' ∧ c ≠ '\t') : Place.word.isPlain c = true := by
  -- All others that are not plain are active.
  have hne : ∀ d, isActive d = true → c ≠ d := by
    rintro d hd rfl
    rw [hd] at hactive
    cases hactive
  obtain ⟨hquote, hslash, hblank, htab⟩ := hc
  simp [Place.isPlain, endsWord, hquote, hslash, hblank, htab, hne '"' (by decide),
    hne '$' (by decide), hne backquote (by decide), hne '\n' (by decide), hne ';' (by decide),
    hne '&' (by decide), hne '|' (by decide), hne '<' (by decide), hne '>' (by decide),
    hne '(' (by decide), hne ')' (by decide)]

variable {word? : Option (List Char)} {ws : List (List Char)}

/-- Within a word, the reader takes a step after which the word has begun and less is left, and
which the splitting takes as well. -/
theorem exists_step (script : Bool → Reader Command) (h : wordsFrom .unquoted word? cs = some ws)
    (hnot : ∀ r, cs ≠ '\\' :: '\n' :: r) (hend : ¬∀ c ∈ cs.head?, c = ' ' ∨ c = '\t')
    (hbegun : Begun before word?) (htail : Ended tail) (hfuel : cs.length ≤ fuel) :
    ∃ word cs' before', wordsFrom .unquoted (some word) cs' = some ws ∧
      Begun before' (some word) ∧ cs'.length < cs.length ∧
        ∀ {v r} {s : Source}, (joined s.rest).1 = cs ++ tail →
          (∀ line, Leaves (parts script .command fuel .word before')
            { s with rest := cs' ++ tail, line } v r) →
          Leaves (parts script .command (fuel + 1) .word before) s v r := by
  cases front_of_wordsFrom h with
  | nil => exact absurd (by simp) hend
  | blank hc => exact absurd (by rintro d ⟨⟩; exact hc) hend
  | join => exact absurd rfl (hnot _)
  | quote h' =>
    have hopen : (Part.text "" true).Settled := by rintro ⟨⟩
    have hpush := hbegun.push hopen
    rw [String.toList_empty, List.append_nil] at hpush
    obtain ⟨before', word, cs', hquote, hbegun', hwords, hshorter⟩ :=
      exists_untilQuote fuel h' hpush (Nat.lt_of_succ_le hfuel) tail
    refine ⟨word, cs', before', hwords, hbegun', Nat.lt_succ_of_lt hshorter,
      fun {v r s} hs hrest => ?_⟩
    exact leaves_parts_quote hs (fun line => hquote _ rfl) hrest
  | @escape d rest hd h' =>
    have hsettled : (Part.text (String.ofList [d]) true).Settled := by rintro ⟨⟩
    have hpush := hbegun.push hsettled
    rw [String.toList_ofList] at hpush
    refine ⟨_, rest, _, h', hpush, by simp only [List.length_cons]; omega,
      fun {v r s} hs hrest => ?_⟩
    exact leaves_parts_escape hs hrest
  | @bare d rest hactive hd h' =>
    -- The reader takes all plain characters from here on.
    obtain ⟨run, cs', rfl, hrun, hafter⟩ := exists_run (Place.isPlain · .word) rest
    obtain ⟨hactives, hwords⟩ := wordsFrom_plain_append hrun h'
    rw [List.append_assoc, List.singleton_append] at hwords
    have hsettled : (Part.text (String.ofList (d :: run)) false).Settled := by
      refine fun _ => ⟨by simp, ?_⟩
      rw [String.toList_ofList]
      exact List.forall_mem_cons.2 ⟨⟨hactive, hd.2.1⟩, hactives⟩
    have hpush := hbegun.push hsettled
    rw [String.toList_ofList] at hpush
    refine ⟨_, cs', _, hwords, hpush, by simp only [List.length_cons, List.length_append]; omega,
      fun {v r s} hs hrest => ?_⟩
    refine leaves_parts_bare (by rw [hs]; simp) (isPlain_of_bare hactive hd) hrun
      (fun e he => ?_) hrest
    cases cs' with
    | nil =>
      obtain rfl := htail e he
      decide
    | cons e' cs' => exact hafter e he

/-- What the reader has come to when it has read a word: parts that spell the first word of the
text, and in front of it the text from which the splitting goes on. -/
structure TakesFirst (ws : List (List Char)) (v : Word) (w : List Char) (ws' : List (List Char))
    (after : List Char) : Prop where
  words : ws = w :: ws'
  spells : Spells v w
  others : wordsFrom .unquoted none after = some ws'
  ends : ∀ c ∈ after.head?, c = ' ' ∨ c = '\t'

theorem head_append_ended {after : List Char} (htail : Ended tail)
    (hafter : ∀ c ∈ after.head?, c = ' ' ∨ c = '\t') :
    ∀ c ∈ (after ++ tail).head?, c = ' ' ∨ c = '\t' ∨ c = '\n' := by
  cases after with
  | nil => exact fun c hc => .inr (.inr (htail c hc))
  | cons d after => exact fun c hc => (hafter c hc).imp_right .inl

/-- A word is read to its end. It takes up at least one character, unless it has begun already. -/
theorem exists_parts (script : Bool → Reader Command) (fuel : Nat)
    (h : wordsFrom .unquoted word? cs = some ws) (hbegun : Begun before word?)
    (htail : Ended tail) (hfuel : cs.length < fuel) (hword : word? = none → AtWord cs ∧ cs ≠ []) :
    ∃ v w ws' after, TakesFirst ws v w ws' after ∧
      after.length < cs.length + word?.toList.length ∧ ∀ s : Source, s.rest = cs ++ tail →
        Leaves (parts script .command fuel .word before) s v (after ++ tail) := by
  induction fuel generalizing word? cs before with
  | zero => exact absurd hfuel (Nat.not_lt_zero _)
  | succ fuel ih =>
    obtain ⟨cs', hjoined, hlength, hwords, hnot, hsame⟩ := exists_joined h htail
    by_cases hend : ∀ c ∈ cs'.head?, c = ' ' ∨ c = '\t'
    · -- The word has come to its end.
      cases word? with
      | none =>
        obtain ⟨hat, hne⟩ := hword rfl
        obtain rfl : cs' = cs := hsame.resolve_right fun ⟨r, hr⟩ => hat.notJoined r hr
        obtain ⟨c, r, rfl⟩ := List.exists_cons_of_ne_nil hne
        rcases hend c rfl with rfl | rfl
        · exact absurd rfl (hat.notBlank _ rfl).1
        · exact absurd rfl (hat.notBlank _ rfl).2
      | some w =>
        obtain ⟨ws', rfl, hothers⟩ := exists_first hwords hend
        refine ⟨_, w, ws', cs', ⟨rfl, hbegun.spells, hothers, hend⟩, Nat.lt_succ_of_le hlength,
          fun s hs => leaves_parts_end (by rw [hs, hjoined]) fun c hc => ?_⟩
        rcases head_append_ended htail hend c hc with rfl | rfl | rfl <;> decide
    · obtain ⟨word, cs₁, before₁, hwords₁, hbegun₁, hshorter, hstep⟩ :=
        exists_step script hwords hnot hend hbegun htail (by omega : cs'.length ≤ fuel)
      obtain ⟨v, w, ws', after, htakes, hafter, hleaves⟩ :=
        ih hwords₁ hbegun₁ (by omega) (by rintro ⟨⟩)
      rw [Option.toList_some, List.length_singleton] at hafter
      exact ⟨v, w, ws', after, htakes, by omega,
        fun s hs => hstep (by rw [hs, hjoined]) fun line => hleaves _ rfl⟩

end Reader

end BlockFlow.Shell
