import BlockFlow.Json.Scan
import BlockFlow.Proofs.Except

/-!
# The texts of strings

A string is written character by character, and each character is read back in one round
(`stringChars_escape`). `StringText` is the grammar of what follows an opening quote: skipping a
string runs over just such a text (`StringText.skip`, `exists_stringText`), and every string is
written as one (`stringText_escape`).

## Key results

- `string_escape`: a string is read back from its escaped characters
-/

namespace BlockFlow.Json

/-! ## Reading back what was written -/

theorem hexValue?_hexDigit {n : Nat} (h : n < 16) : hexValue? (hexDigit n) = some n := by
  have hall : ∀ m : Fin 16, hexValue? (hexDigit m.val) = some m.val := by decide
  exact hall ⟨n, h⟩

/-- A control character is written with four digits, which give its value. -/
theorem hexEscape_control {c : Char} (hc : c.toNat < 0x20) (cs : List Char) :
    hexEscape ('0' :: '0' :: hexDigit (c.toNat / 16) :: hexDigit (c.toNat % 16) :: cs) =
      .ok (c.toNat, cs) := by
  have hzero : hexValue? '0' = some 0 := rfl
  have hhigh := hexValue?_hexDigit (n := c.toNat / 16) (by omega)
  have hlow := hexValue?_hexDigit (n := c.toNat % 16) (by omega)
  have hsum : c.toNat / 16 * 16 + c.toNat % 16 = c.toNat := by omega
  simp [hexEscape, hexValues?, hzero, hhigh, hlow, hsum]

theorem unicodeEscape_control {c : Char} (hc : c.toNat < 0x20) (cs : List Char) :
    unicodeEscape ('0' :: '0' :: hexDigit (c.toNat / 16) :: hexDigit (c.toNat % 16) :: cs) =
      .ok (c, cs) := by
  have hlow : isLowSurrogate c.toNat = false := by simp [isLowSurrogate]; omega
  have hhigh : isHighSurrogate c.toNat = false := by simp [isHighSurrogate]; omega
  simp [unicodeEscape, hexEscape_control hc, hlow, hhigh]

/-- A character is written as it is, with a letter that stands for it, or by its value. -/
theorem escape_cases (c : Char) :
    (c ≠ '"' ∧ c ≠ '\\' ∧ ¬c.toNat < 0x20 ∧ escape c = [c]) ∨
    (∃ e, e ≠ 'u' ∧ simpleEscape? e = some c ∧ escape c = ['\\', e]) ∨
    (c.toNat < 0x20 ∧
      escape c = ['\\', 'u', '0', '0', hexDigit (c.toNat / 16), hexDigit (c.toNat % 16)]) := by
  -- The characters that a letter stands for, in the order in which `escape` looks for them.
  by_cases hquote : c = '"'
  · subst hquote; exact .inr (.inl ⟨'"', by decide, rfl, rfl⟩)
  by_cases hslash : c = '\\'
  · subst hslash; exact .inr (.inl ⟨'\\', by decide, rfl, rfl⟩)
  by_cases hback : c = '\x08'
  · subst hback; exact .inr (.inl ⟨'b', by decide, rfl, rfl⟩)
  by_cases htab : c = '\t'
  · subst htab; exact .inr (.inl ⟨'t', by decide, rfl, rfl⟩)
  by_cases hline : c = '\n'
  · subst hline; exact .inr (.inl ⟨'n', by decide, rfl, rfl⟩)
  by_cases hform : c = '\x0c'
  · subst hform; exact .inr (.inl ⟨'f', by decide, rfl, rfl⟩)
  by_cases hreturn : c = '\r'
  · subst hreturn; exact .inr (.inl ⟨'r', by decide, rfl, rfl⟩)
  by_cases hcontrol : c.toNat < 0x20
  · simp [escape, hquote, hslash, hback, htab, hline, hform, hreturn, hcontrol]
  · simp [escape, hquote, hslash, hback, htab, hline, hform, hreturn, hcontrol]

/-- One round reads one character. -/
theorem stringChars_escape (fuel : Nat) (acc : List Char) (c : Char) (cs : List Char) :
    stringChars (fuel + 1) acc (escape c ++ cs) = stringChars fuel (c :: acc) cs := by
  obtain ⟨hquote, hslash, hcontrol, hc⟩ | ⟨e, hu, he, hc⟩ | ⟨hcontrol, hc⟩ := escape_cases c
  · simp [hc, stringChars, hquote, hslash, hcontrol]
  · simp [hc, stringChars, hu, he]
  · simp [hc, stringChars, unicodeEscape_control hcontrol]

theorem stringChars_flatMap (cs : List Char) {fuel : Nat} (hfuel : cs.length < fuel)
    (acc rest : List Char) :
    stringChars fuel acc (cs.flatMap escape ++ '"' :: rest) =
      .ok (String.ofList (acc.reverse ++ cs), rest) := by
  induction cs generalizing fuel acc with
  | nil =>
    obtain ⟨fuel, rfl⟩ : ∃ n, fuel = n + 1 := ⟨fuel - 1, by omega⟩
    simp [stringChars]
  | cons c cs ih =>
    simp only [List.length_cons] at hfuel
    obtain ⟨fuel, rfl⟩ : ∃ n, fuel = n + 1 := ⟨fuel - 1, by omega⟩
    rw [List.flatMap_cons, List.append_assoc, stringChars_escape, ih (by omega)]
    simp

theorem length_escape_pos (c : Char) : 0 < (escape c).length := by
  obtain ⟨-, -, -, hc⟩ | ⟨e, -, -, hc⟩ | ⟨-, hc⟩ := escape_cases c <;> simp [hc]

theorem length_le_flatMap_escape (cs : List Char) : cs.length ≤ (cs.flatMap escape).length := by
  induction cs with
  | nil => simp
  | cons c cs ih =>
    have := length_escape_pos c
    simp only [List.flatMap_cons, List.length_append, List.length_cons]
    omega

/-- A string is read back from its escaped characters. -/
theorem string_escape (s : String) (rest : List Char) :
    Json.string (s.toList.flatMap escape ++ '"' :: rest) = .ok (s, rest) := by
  have hle := length_le_flatMap_escape s.toList
  rw [Json.string, stringChars_flatMap]
  · simp
  · simp only [List.length_append]
    omega

/-! ## The grammar of strings -/

/-- What follows the opening quote of a string, to its closing one. -/
inductive StringText : List Char → Prop
  | quote : StringText ['"']
  | plain {c : Char} {t : List Char} (hquote : c ≠ '"') (hslash : c ≠ '\\')
      (hcontrol : ¬c.toNat < 0x20) (ht : StringText t) : StringText (c :: t)
  | simple {c : Char} {t : List Char} (hc : (simpleEscape? c).isSome = true)
      (ht : StringText t) : StringText ('\\' :: c :: t)
  | unicode {a b c d : Char} {t : List Char} (hc : (hexValues? a b c d).isSome = true)
      (ht : StringText t) : StringText ('\\' :: 'u' :: a :: b :: c :: d :: t)

theorem StringText.skipStringChars {t : List Char} (h : StringText t) (rest : List Char)
    {fuel : Nat} (hfuel : t.length ≤ fuel) :
    skipStringChars fuel (t ++ rest) = .ok rest := by
  -- Each part of the text takes one unit of fuel, and has one character at least.
  induction h generalizing fuel with
  | quote =>
    obtain ⟨fuel, rfl⟩ : ∃ n, fuel = n + 1 := ⟨fuel - 1, by simp at hfuel; omega⟩
    simp [Json.skipStringChars]
  | plain hquote hslash hcontrol ht ih =>
    simp only [List.length_cons] at hfuel
    obtain ⟨fuel, rfl⟩ : ∃ n, fuel = n + 1 := ⟨fuel - 1, by omega⟩
    have hrest : Json.skipStringChars fuel (_ ++ rest) = .ok rest := ih (by omega)
    simp [Json.skipStringChars, hquote, hslash, hcontrol, hrest]
  | simple hc ht ih =>
    simp only [List.length_cons] at hfuel
    obtain ⟨fuel, rfl⟩ : ∃ n, fuel = n + 1 := ⟨fuel - 1, by omega⟩
    have hu : ∀ c, (simpleEscape? c).isSome = true → c ≠ 'u' := by
      rintro c hc rfl
      simp [simpleEscape?] at hc
    have hrest : Json.skipStringChars fuel (_ ++ rest) = .ok rest := ih (by omega)
    simp [Json.skipStringChars, hu _ hc, hc, hrest]
  | unicode hc ht ih =>
    simp only [List.length_cons] at hfuel
    obtain ⟨fuel, rfl⟩ : ∃ n, fuel = n + 1 := ⟨fuel - 1, by omega⟩
    obtain ⟨n, hn⟩ := Option.isSome_iff_exists.1 hc
    have hrest : Json.skipStringChars fuel (_ ++ rest) = .ok rest := ih (by omega)
    simp [Json.skipStringChars, hexEscape, hn, hrest]

theorem StringText.skip {t : List Char} (h : StringText t) (rest : List Char) :
    skipString (t ++ rest) = .ok rest := by
  apply h.skipStringChars
  simp only [List.length_append]
  omega

/-- What four digits were read from. -/
theorem exists_of_hexEscape {cs rest : List Char} {n : Nat} (h : hexEscape cs = .ok (n, rest)) :
    ∃ a b c d, cs = a :: b :: c :: d :: rest ∧ (hexValues? a b c d).isSome = true := by
  rw [hexEscape.eq_def] at h
  split at h
  · next a b c d r =>
    split at h
    · next m hm =>
      obtain ⟨rfl, rfl⟩ := Prod.mk.inj (Except.ok.inj h)
      exact ⟨a, b, c, d, rfl, by rw [hm]; rfl⟩
    · cases h
  · split at h <;> cases h

theorem exists_stringText {fuel : Nat} {cs rest : List Char}
    (h : skipStringChars fuel cs = .ok rest) : ∃ t, cs = t ++ rest ∧ StringText t := by
  induction fuel generalizing cs with
  | zero => cases h
  | succ fuel ih =>
    cases cs with
    | nil => cases h
    | cons c cs =>
      rw [skipStringChars.eq_def] at h
      simp only at h
      split at h
      · next hquote =>
        obtain rfl := Except.ok.inj h
        subst hquote
        exact ⟨['"'], rfl, .quote⟩
      · next hquote =>
        split at h
        · next hslash =>
          -- Behind a backslash stand four digits or one letter.
          subst hslash
          cases cs with
          | nil => cases h
          | cons e cs =>
            simp only at h
            split at h
            · next hu =>
              subst hu
              split at h
              · next n r hr =>
                obtain ⟨a, b, c, d, rfl, hc⟩ := exists_of_hexEscape hr
                obtain ⟨t, rfl, ht⟩ := ih h
                exact ⟨_, rfl, .unicode hc ht⟩
              · cases h
            · split at h
              · next he =>
                obtain ⟨t, rfl, ht⟩ := ih h
                exact ⟨_, rfl, .simple he ht⟩
              · cases h
        · next hslash =>
          split at h
          · cases h
          · next hcontrol =>
            obtain ⟨t, rfl, ht⟩ := ih h
            exact ⟨_, rfl, .plain hquote hslash hcontrol ht⟩

theorem StringText.escape {t : List Char} (h : StringText t) (c : Char) :
    StringText (Json.escape c ++ t) := by
  obtain ⟨hquote, hslash, hcontrol, hc⟩ | ⟨e, hu, he, hc⟩ | ⟨hcontrol, hc⟩ := escape_cases c
  · rw [hc]
    exact .plain hquote hslash hcontrol h
  · rw [hc]
    exact .simple (by rw [he]; rfl) h
  · rw [hc]
    refine .unicode ?_ h
    have hzero : hexValue? '0' = some 0 := rfl
    have hhigh := hexValue?_hexDigit (n := c.toNat / 16) (by omega)
    have hlow := hexValue?_hexDigit (n := c.toNat % 16) (by omega)
    simp [hexValues?, hzero, hhigh, hlow]

/-- A string is written as one. -/
theorem stringText_escape (s : String) : StringText (s.toList.flatMap Json.escape ++ ['"']) := by
  induction s.toList with
  | nil => exact .quote
  | cons c cs ih =>
    rw [List.flatMap_cons, List.append_assoc]
    exact ih.escape c

end BlockFlow.Json
