import BlockFlow.Proofs.Shell.Scanning

/-!
# The arguments of a command

When the reader has got to the arguments of a command, and the rest of the line is a text that
`words` splits, it takes that text for the arguments and for nothing else. When the command is
carried out, they expand to the words of the text, whatever is set in the session and whatever files
there are.

## Key results

- `Reader.exists_token`: the next token is the first word of the text, or the text is at its end
- `Reader.exists_simple`: the text is read as arguments
- `takesAsArguments_of_words`: the arguments are the words of the text
-/

namespace BlockFlow.Shell

/-- The source stands at a text, with no token given back and no alias behind. -/
structure Source.At (s : Source) (rest : List Char) : Prop where
  rest : s.rest = rest
  pushed : s.pushed = none
  alsoAlias : s.alsoAlias = []

namespace Reader

/-! ## Tokens -/

/-- A reader that comes to this and stands at this text then. -/
def Comes {α : Type} (m : Reader α) (s : Source) (a : α) (rest : List Char) : Prop :=
  ∃ s', m.run s = .ok (a, s') ∧ s'.At rest

section Comes

variable {α β : Type} {s : Source} {m : Reader α} {f : α → Reader β} {a : α} {b : β}
  {r r' : List Char}

theorem Leaves.comes_bind (h : Leaves m s a r)
    (hf : ∀ line, Comes (f a) { s with rest := r, line } b r') : Comes (m >>= f) s b r' := by
  obtain ⟨line, hline⟩ := h
  obtain ⟨s', hrun, hs'⟩ := hf line
  refine ⟨s', ?_, hs'⟩
  rw [StateT.run_bind, hline]
  exact hrun

theorem Comes.bind (h : Comes m s a r) (hf : ∀ s' : Source, s'.At r → Comes (f a) s' b r') :
    Comes (m >>= f) s b r' := by
  obtain ⟨s', hrun, hs'⟩ := h
  obtain ⟨s'', hrun', hs''⟩ := hf s' hs'
  refine ⟨s'', ?_, hs''⟩
  rw [StateT.run_bind, hrun]
  exact hrun'

theorem comes_pure (a : α) (hs : s.At r) : Comes (pure a) s a r := ⟨s, rfl, hs⟩

theorem comes_get_bind {f : Source → Reader β} (h : Comes (f s) s b r) : Comes (get >>= f) s b r :=
  h

end Comes

/-- The token at the end of a line or of a script. -/
def endToken (tail : List Char) : Token := if tail.isEmpty then .endOfText else .newline

variable {script : Bool → Reader Command} {cs tail : List Char} {ws : List (List Char)}

theorem joined_of_ended (htail : Ended tail) : (joined tail).1 = tail := by
  rcases cases_joined tail with ⟨r, rfl⟩ | ⟨-, hjoined⟩
  · exact absurd (htail '\\' rfl) (by decide)
  · rw [hjoined]

theorem comes_scan_end {fuel : Nat} {s : Source} {r : List Char} (hs : s.At r)
    (htail : Ended tail) (hblanks : Leaves (skipBlanks fuel) s () tail) :
    Comes (scan script .command fuel) s (endToken tail) (tail.drop 1) := by
  rw [scan]
  refine hblanks.comes_bind fun line => ?_
  have hpeek := leaves_peek { s with rest := tail, line }
  rw [joined_of_ended htail] at hpeek
  refine hpeek.comes_bind fun line => ?_
  cases tail with
  | nil => exact comes_pure _ ⟨rfl, hs.pushed, hs.alsoAlias⟩
  | cons c tail =>
    obtain rfl := htail c rfl
    exact (leaves_drop 1 _).comes_bind fun line => comes_pure _ ⟨rfl, hs.pushed, hs.alsoAlias⟩

theorem comes_scan_word {fuel : Nat} {s : Source} {c : Char} {r text after : List Char} {v : Word}
    (hs : s.At r) (hblanks : Leaves (skipBlanks fuel) s () (c :: text))
    (hjoined : (joined (c :: text)).1 = c :: text) (hc : isActive c = false)
    (hparts : ∀ line, Leaves (parts script .command fuel .word [])
      { s with rest := c :: text, line } v after)
    (hafter : ∀ d ∈ after.head?, d = ' ' ∨ d = '\t' ∨ d = '\n') :
    Comes (scan script .command fuel) s (.word v) after := by
  rw [scan]
  refine hblanks.comes_bind fun line => ?_
  have hpeek := leaves_peek { s with rest := c :: text, line }
  rw [hjoined] at hpeek
  refine hpeek.comes_bind fun line => ?_
  -- No sign begins with such a character.
  split
  · next hsome => cases hsome
  · next hsome => cases hsome; cases hc
  · next hsome => cases hsome; cases hc
  · next hsome => cases hsome; cases hc
  · next hsome => cases hsome; cases hc
  · next hsome => cases hsome; cases hc
  · next hsome => cases hsome; cases hc
  · refine (hparts line).comes_bind fun line => (leaves_rest _).comes_bind fun line => ?_
    have hword : ∀ s' : Source, s'.At after → Comes (do
        modify fun s => { s with lastWord := v }
        return Token.word v) s' (.word v) after :=
      fun s' hs' => ⟨{ s' with lastWord := v }, rfl, hs'.rest, hs'.pushed, hs'.alsoAlias⟩
    dsimp only
    split
    · next d hd =>
      rw [if_neg (by rcases hafter _ hd with rfl | rfl | rfl <;> decide)]
      exact hword _ ⟨rfl, hs.pushed, hs.alsoAlias⟩
    · exact hword _ ⟨rfl, hs.pushed, hs.alsoAlias⟩

/-- The next token is the first word of the text, or the text is at its end. -/
theorem exists_scan (script : Bool → Reader Command) {fuel : Nat}
    (h : wordsFrom .unquoted none cs = some ws) (htail : Ended tail) (hfuel : cs.length < fuel) :
    (ws = [] ∧ ∀ s : Source, s.At (cs ++ tail) →
        Comes (scan script .command fuel) s (endToken tail) (tail.drop 1)) ∨
      ∃ v w ws' after, TakesFirst ws v w ws' after ∧ after.length < cs.length ∧
        ∀ s : Source, s.At (cs ++ tail) →
          Comes (scan script .command fuel) s (.word v) (after ++ tail) := by
  obtain ⟨cs', hblanks, hlength, hwords, hat⟩ := exists_skipBlanks fuel h htail hfuel
  -- The blanks are gone, so that a token or the end stands there.
  cases cs' with
  | nil =>
    refine .inl ⟨(Option.some.inj hwords).symm, fun s hs => ?_⟩
    exact comes_scan_end hs htail (hblanks s hs.rest)
  | cons c cs' =>
    obtain ⟨v, w, ws', after, htakes, hafter, hparts⟩ :=
      exists_parts script fuel hwords begun_nil htail (by omega) fun _ => ⟨hat, by simp⟩
    refine .inr ⟨v, w, ws', after, htakes, ?_, fun s hs => ?_⟩
    · exact Nat.lt_of_lt_of_le hafter hlength
    · refine comes_scan_word hs (hblanks s hs.rest) ?_ (front_of_wordsFrom hwords).isActive_head
        (fun line => hparts _ rfl) (head_append_ended htail htakes.ends)
      obtain ⟨cs'', hjoined, -, -, -, hsame⟩ := exists_joined hwords htail
      obtain rfl := hsame.resolve_right fun ⟨r, hr⟩ => hat.notJoined r hr
      exact hjoined

/-- Where nothing is looked for, a token is what has been scanned. -/
theorem comes_token {fuel : Nat} {s : Source} {t : Token} {r after : List Char} (hs : s.At r)
    (hscan : Comes (scan script .command fuel) s t after) :
    Comes (token script (fuel + 1) {}) s t after := by
  rw [token]
  refine comes_get_bind ?_
  simp only [hs.pushed]
  refine hscan.bind fun s' hs' => comes_get_bind ?_
  -- No alias is pushed or pending, so the token is what the scan gives.
  simp only [hs'.alsoAlias, List.filter_nil, List.length_nil, Nat.lt_irrefl, decide_false,
    Bool.or_false, Bool.false_and, Bool.not_false, if_true, if_false, Bool.false_eq_true]
  have hset : Comes (set { s' with alsoAlias := [] } : Reader Unit) s' () after :=
    ⟨_, rfl, hs'.rest, hs'.pushed, rfl⟩
  refine hset.bind fun s'' hs'' => ?_
  split
  · exact comes_pure _ hs''
  · split <;> exact comes_pure _ hs''
  · exact comes_pure _ hs''

/-- The next token is the first word of the text, or the text is at its end. -/
theorem exists_token (script : Bool → Reader Command) {fuel : Nat}
    (h : wordsFrom .unquoted none cs = some ws) (htail : Ended tail)
    (hfuel : cs.length + 1 < fuel) :
    (ws = [] ∧ ∀ s : Source, s.At (cs ++ tail) →
        Comes (token script fuel {}) s (endToken tail) (tail.drop 1)) ∨
      ∃ v w ws' after, TakesFirst ws v w ws' after ∧ after.length < cs.length ∧
        ∀ s : Source, s.At (cs ++ tail) →
          Comes (token script fuel {}) s (.word v) (after ++ tail) := by
  obtain ⟨fuel, rfl⟩ : ∃ fuel', fuel = fuel' + 1 := ⟨fuel - 1, by omega⟩
  rcases exists_scan script h htail (by omega : cs.length < fuel) with
    ⟨hws, hscan⟩ | ⟨v, w, ws', after, htakes, hafter, hscan⟩
  · exact .inl ⟨hws, fun s hs => comes_token hs (hscan s hs)⟩
  · exact .inr ⟨v, w, ws', after, htakes, hafter, fun s hs => comes_token hs (hscan s hs)⟩

/-! ## Arguments -/

/-- A reader that comes to this and has the end of the line behind it, which is read again. -/
def EndsLine {α : Type} (m : Reader α) (s : Source) (a : α) (tail : List Char) : Prop :=
  ∃ s', m.run s = .ok (a, s') ∧ s'.rest = tail.drop 1 ∧ s'.pushed = some (endToken tail)

theorem Comes.endsLine_bind {α β : Type} {s : Source} {m : Reader α} {f : α → Reader β} {a : α}
    {b : β} {r : List Char} (h : Comes m s a r)
    (hf : ∀ s' : Source, s'.At r → EndsLine (f a) s' b tail) : EndsLine (m >>= f) s b tail := by
  obtain ⟨s', hrun, hs'⟩ := h
  obtain ⟨s'', hrun', hrest, hpushed⟩ := hf s' hs'
  refine ⟨s'', ?_, hrest, hpushed⟩
  rw [StateT.run_bind, hrun]
  exact hrun'

/-- Behind the first word, a text is read as arguments up to the end of the line. -/
theorem exists_simple {fuel : Nat} (h : wordsFrom .unquoted none cs = some ws)
    (htail : Ended tail) (hfuel : cs.length + 2 < fuel) (line : Nat) (as : List (String × Word))
    (before : List Word) (rs : List (Redirection Word)) :
    ∃ vs, List.Forall₂ Spells vs ws ∧ ∀ s : Source, s.At (cs ++ tail) →
      EndsLine (simple fuel line true as before rs) s
        (.simple line as.reverse (before.reverse ++ vs) rs.reverse) tail := by
  induction fuel generalizing cs ws before with
  | zero => exact absurd hfuel (Nat.not_lt_zero _)
  | succ fuel ih =>
    -- Either the words are over, or one token gives the next one.
    rcases exists_token (nested fuel) h htail (by omega : cs.length + 1 < fuel) with
      ⟨rfl, htoken⟩ | ⟨v, w, ws', after, htakes, hafter, htoken⟩
    · refine ⟨[], .nil, fun s hs => ?_⟩
      unfold simple
      refine (htoken s hs).endsLine_bind fun s' hs' => ?_
      rw [List.append_nil]
      cases tail with
      | nil => exact ⟨_, rfl, hs'.rest, rfl⟩
      | cons c tail => exact ⟨_, rfl, hs'.rest, rfl⟩
    · obtain ⟨rfl, hspells, hothers, -⟩ := htakes
      obtain ⟨vs, hvs, hsimple⟩ := ih hothers (by omega) (wordWithHomes v :: before)
      refine ⟨wordWithHomes v :: vs, .cons (spells_wordWithHomes hspells) hvs, fun s hs => ?_⟩
      unfold simple
      refine (htoken s hs).endsLine_bind fun s' hs' => ?_
      rw [List.reverse_cons, List.append_assoc, List.singleton_append] at hsimple
      exact hsimple s' hs'

end Reader

/-! ## Expansions -/

/-- Settled words expand to their characters, also those that would be assignments. -/
theorem gives_expandAfter (exec : Exec) {vs : List Word} {ws : List (List Char)}
    (h : List.Forall₂ Spells vs ws) (before : List Bytes) :
    Sh.Gives (Simple.expandAfter exec before vs)
      (before ++ ws.map fun w => bytesOf (String.ofList w)) := by
  induction h generalizing before with
  | nil =>
    rw [List.map_nil, List.append_nil]
    exact Sh.gives_pure _
  | @cons v w vs ws hv _ ih =>
    have hrest := ih (before ++ [bytesOf (String.ofList w)])
    rw [List.append_assoc, List.singleton_append] at hrest
    rw [Simple.expandAfter]
    dsimp only
    split
    · exact (Expansion.gives_assigned _ hv).bind hrest
    · exact (Expansion.gives_words _ hv).bind hrest

/-- Behind the first word of a command, a text is taken for arguments, and for these: a reader that
may go deeper than the text is long takes it for words up to the end of the line, and whatever the
state, they expand to these. -/
def TakesAsArguments (text : String) (ws : List String) : Prop :=
  ∀ (fuel line : Nat) (as : List (String × Word)) (before : List Word)
    (rs : List (Redirection Word)) (tail : List Char), text.length + 2 < fuel → Ended tail →
    ∃ vs, (∀ s : Source, s.At (text.toList ++ tail) →
        Reader.EndsLine (Reader.simple fuel line true as before rs) s
          (.simple line as.reverse (before.reverse ++ vs) rs.reverse) tail) ∧
      ∀ exec words, Sh.Gives (Simple.expandAfter exec words vs) (words ++ ws.map bytesOf)

/-- The shell takes for arguments what `words` finds. -/
theorem takesAsArguments_of_words {text : String} {ws : List String} (h : words text = some ws) :
    TakesAsArguments text ws := by
  obtain ⟨css, hcss, rfl⟩ := Option.map_eq_some_iff.1 h
  intro fuel line as before rs tail hfuel htail
  obtain ⟨vs, hvs, hsimple⟩ := Reader.exists_simple hcss htail hfuel line as before rs
  refine ⟨vs, hsimple, fun exec words => ?_⟩
  rw [List.map_map]
  exact gives_expandAfter exec hvs words

end BlockFlow.Shell
