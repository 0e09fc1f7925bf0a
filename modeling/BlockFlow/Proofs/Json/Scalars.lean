import BlockFlow.Json.Decoder
import BlockFlow.Proofs.Json.Skipping

/-!
# What is made of a scalar

A reader takes a text off, with a value, or refuses it. `Decoder.Yields` says that this does not
depend on what stands behind the text, if only a number ends there. It holds of the text of any
string (`yields_string`) and of any number (`yields_number`), whether or not it has a value: the
escapes of a string may not pair, and a number may be out of range. On the other hand only such
texts have one (`stringText_of_string`, `numberText_of_number`).

## Key results

- `yields_string`, `yields_number`: a string or number is judged by itself
- `stringText_of_string`, `numberText_of_number`: what is read is of the form that is skipped
-/

namespace BlockFlow

namespace Decoder

open Json

variable {α β : Type} {f : List Char → Except JsonError (α × List Char)} {t : List Char}
  {m : Option α}

/-- A reader makes this of a text: it takes the text off, with a value, or refuses it, whatever
stands behind it, if only a number ends there. -/
def Yields (f : List Char → Except JsonError (α × List Char)) (t : List Char) (m : Option α) :
    Prop :=
  ∀ rest, Stops rest → (f (t ++ rest)).toOption = m.map (·, rest)

/-- What a reader makes of a text that nothing stands behind. -/
def outcome (f : List Char → Except JsonError (α × List Char)) (t : List Char) : Option α :=
  (f t).toOption.map (·.1)

theorem Yields.outcome_eq (h : Yields f t m) : outcome f t = m := by
  have h := h [] stops_nil
  rw [List.append_nil] at h
  simp [outcome, h, Function.comp_def]

/-- What a reader makes of a text, it makes of it wherever it stands. -/
theorem Yields.yields_outcome (h : Yields f t m) : Yields f t (outcome f t) := by
  rwa [h.outcome_eq]

/-- What is read may be turned into something else. -/
theorem Yields.map (h : Yields f t m) (g : α → β) :
    Yields (fun cs => do let (x, rest) ← f cs; return (g x, rest)) t (m.map g) := by
  intro rest hrest
  cases m <;> simp [toOption_bind, h rest hrest]

/-- What is read may be judged. -/
theorem Yields.refine {decoder : Decoder α} {depth : Nat} (h : Yields (decoder depth) t m)
    (judge : α → Except JsonError β) :
    Yields (refine decoder judge depth) t (m.bind fun a => (judge a).toOption) := by
  intro rest hrest
  cases m with
  | none => simp [Decoder.refine, toOption_bind, h rest hrest]
  | some a => simp [Decoder.refine, toOption_bind, h rest hrest, Option.map_eq_bind]

end Decoder

namespace Json

open Decoder (Yields outcome)

/-! ## Strings -/

/-- A text is judged as the rest of a string, whatever has been read before it and stands behind
it. -/
def Closes (t : List Char) : Prop :=
  ∃ m : Option (List Char), ∀ fuel acc rest, t.length ≤ fuel →
    (stringChars fuel acc (t ++ rest)).toOption =
      m.map fun s => (String.ofList (acc.reverse ++ s), rest)

/-- A text is so judged behind the first half of a pair. -/
def ClosesPair (t : List Char) : Prop :=
  ∀ high, ∃ m : Option (List Char), ∀ fuel acc rest, t.length ≤ fuel →
    (lowHalf high (t ++ rest) >>= fun p => stringChars fuel (p.1 :: acc) p.2).toOption =
      m.map fun s => (String.ofList (acc.reverse ++ s), rest)

/-- The characters that stand for one are read off. -/
theorem Closes.read {u t : List Char} {c : Char} (hu : u ≠ [])
    (hread : ∀ fuel acc cs, stringChars (fuel + 1) acc (u ++ cs) = stringChars fuel (c :: acc) cs)
    (h : Closes t) : Closes (u ++ t) := by
  obtain ⟨m, hm⟩ := h
  refine ⟨m.map (c :: ·), fun fuel acc rest hfuel => ?_⟩
  have hpos := List.length_pos_iff.2 hu
  rw [List.length_append] at hfuel
  obtain ⟨fuel, rfl⟩ : ∃ n, fuel = n + 1 := ⟨fuel - 1, by omega⟩
  rw [List.append_assoc, hread, hm fuel (c :: acc) rest (by omega), Option.map_map]
  simp [Function.comp_def]

/-- What cannot stand in a string is refused. -/
theorem ClosesPair.refused {t : List Char}
    (h : ∀ high rest, ∃ e, lowHalf high (t ++ rest) = .error e) : ClosesPair t := by
  refine fun high => ⟨none, fun fuel acc rest _ => ?_⟩
  obtain ⟨e, he⟩ := h high rest
  rw [he]
  rfl

section Unicode

variable {a b c d : Char} {n : Nat} {t : List Char}

theorem hexEscape_digits (hn : hexValues? a b c d = some n) (cs : List Char) :
    hexEscape (a :: b :: c :: d :: cs) = .ok (n, cs) := by
  simp [hexEscape, hn]

theorem stringChars_unicode (hn : hexValues? a b c d = some n) (fuel : Nat) (acc cs : List Char) :
    stringChars (fuel + 1) acc ('\\' :: 'u' :: a :: b :: c :: d :: cs) =
      ((if isLowSurrogate n then throw .loneSurrogate
        else if isHighSurrogate n then lowHalf n cs
        else return (Char.ofNat n, cs)) >>= fun p => stringChars fuel (p.1 :: acc) p.2) := by
  simp only [stringChars, unicodeEscape, hexEscape_digits hn, ok_bind]
  generalize (if isLowSurrogate n then _ else _ : Except JsonError (Char × List Char)) = x
  cases x <;> rfl

/-- An escape is half of a pair, or stands for a character, or for neither. -/
theorem Closes.unicode (hn : hexValues? a b c d = some n) (h : Closes t) (hpair : ClosesPair t) :
    Closes ('\\' :: 'u' :: a :: b :: c :: d :: t) := by
  have hread := stringChars_unicode hn
  -- A low half alone is refused; a high half needs the low half behind it.
  by_cases hlow : isLowSurrogate n = true
  · refine ⟨none, fun fuel acc rest hfuel => ?_⟩
    simp only [List.length_cons] at hfuel
    obtain ⟨fuel, rfl⟩ : ∃ n, fuel = n + 1 := ⟨fuel - 1, by omega⟩
    simp [hread, hlow]
  by_cases hhigh : isHighSurrogate n = true
  · obtain ⟨m, hm⟩ := hpair n
    refine ⟨m, fun fuel acc rest hfuel => ?_⟩
    simp only [List.length_cons] at hfuel
    obtain ⟨fuel, rfl⟩ : ∃ n, fuel = n + 1 := ⟨fuel - 1, by omega⟩
    rw [← hm fuel acc rest (by omega)]
    simp [hread, hlow, hhigh]
  · refine Closes.read (u := ['\\', 'u', a, b, c, d]) (c := Char.ofNat n) (by simp) ?_ h
    intro fuel acc cs
    simp [hread, hlow, hhigh]

/-- The second half of a pair is a low surrogate. -/
theorem Closes.pair (hn : hexValues? a b c d = some n) (h : Closes t) :
    ClosesPair ('\\' :: 'u' :: a :: b :: c :: d :: t) := by
  intro high
  by_cases hlow : isLowSurrogate n = true
  · obtain ⟨m, hm⟩ := h
    have hhalf : ∀ cs, lowHalf high ('\\' :: 'u' :: a :: b :: c :: d :: cs) =
        .ok (Char.ofNat ((high - 0xD800) * 1024 + (n - 0xDC00) + 0x10000), cs) := by
      intro cs
      simp [lowHalf, hexEscape_digits hn, hlow]
    -- Which character the halves make does not matter.
    generalize Char.ofNat ((high - 0xD800) * 1024 + (n - 0xDC00) + 0x10000) = x at hhalf
    refine ⟨m.map (x :: ·), fun fuel acc rest hfuel => ?_⟩
    simp only [List.length_cons] at hfuel
    have htail := hm fuel (x :: acc) rest (by omega)
    simp [hhalf, htail, Function.comp_def]
  · refine ⟨none, fun fuel acc rest _ => ?_⟩
    simp [lowHalf, hexEscape_digits hn, hlow]

end Unicode

theorem StringText.closes {t : List Char} (h : StringText t) : Closes t ∧ ClosesPair t := by
  -- Together, since the second half of a pair is an escape in the text behind the first half.
  induction h with
  | quote =>
    refine ⟨⟨some [], fun fuel acc rest hfuel => ?_⟩, .refused fun high rest => ⟨_, rfl⟩⟩
    obtain ⟨fuel, rfl⟩ : ∃ n, fuel = n + 1 := ⟨fuel - 1, by simp at hfuel; omega⟩
    simp [stringChars]
  | @plain c t hquote hslash hcontrol ht ih =>
    refine ⟨Closes.read (u := [c]) (c := c) (by simp) (fun fuel acc cs => ?_) ih.1,
      .refused fun high rest => ⟨.unpairedSurrogate, ?_⟩⟩
    · simp [stringChars, hquote, hslash, hcontrol]
    · simp [lowHalf, hslash]
  | @simple e t he ht ih =>
    obtain ⟨c, hc⟩ := Option.isSome_iff_exists.1 he
    have hu : e ≠ 'u' := by
      rintro rfl
      simp [simpleEscape?] at hc
    refine ⟨Closes.read (u := ['\\', e]) (c := c) (by simp) (fun fuel acc cs => ?_) ih.1,
      .refused fun high rest => ⟨.unpairedSurrogate, ?_⟩⟩
    · simp [stringChars, hu, hc]
    · simp [lowHalf, hu]
  | unicode hdigits ht ih =>
    obtain ⟨n, hn⟩ := Option.isSome_iff_exists.1 hdigits
    exact ⟨ih.1.unicode hn ih.2, ih.1.pair hn⟩

/-- A string is judged by itself. -/
theorem yields_string {t : List Char} (h : StringText t) :
    Yields Json.string t (outcome Json.string t) := by
  obtain ⟨⟨m, hm⟩, -⟩ := h.closes
  have hyields : Yields Json.string t (m.map String.ofList) := by
    intro rest _
    have hread := hm ((t ++ rest).length + 1) [] rest (by simp only [List.length_append]; omega)
    rw [Json.string, hread]
    simp [Function.comp_def]
  exact hyields.yields_outcome

/-- The escapes that pair are followed by the rest of the string. -/
theorem exists_of_lowHalf {high : Nat} {cs rest : List Char} {c : Char}
    (h : lowHalf high cs = .ok (c, rest)) :
    ∃ u, cs = u ++ rest ∧ ∀ t, StringText t → StringText (u ++ t) := by
  rw [lowHalf.eq_def] at h
  split at h
  · cases h
  · cases h
  · obtain ⟨⟨n, r⟩, hhex, hend⟩ := exists_of_bind_ok h
    obtain ⟨x₁, x₂, x₃, x₄, rfl, hdigits⟩ := exists_of_hexEscape hhex
    simp only at hend
    split at hend
    · obtain ⟨-, rfl⟩ := Prod.mk.inj (Except.ok.inj hend)
      exact ⟨['\\', 'u', x₁, x₂, x₃, x₄], rfl, fun t ht => .unicode hdigits ht⟩
    · cases hend
  · cases h

theorem exists_of_unicodeEscape {cs rest : List Char} {c : Char}
    (h : unicodeEscape cs = .ok (c, rest)) :
    ∃ u, cs = u ++ rest ∧ ∀ t, StringText t → StringText ('\\' :: 'u' :: (u ++ t)) := by
  obtain ⟨⟨n, r⟩, hhex, hend⟩ := exists_of_bind_ok h
  obtain ⟨x₁, x₂, x₃, x₄, rfl, hdigits⟩ := exists_of_hexEscape hhex
  simp only at hend
  split at hend
  · cases hend
  split at hend
  · obtain ⟨u, rfl, hu⟩ := exists_of_lowHalf hend
    exact ⟨x₁ :: x₂ :: x₃ :: x₄ :: u, rfl, fun t ht => .unicode hdigits (hu t ht)⟩
  · obtain ⟨-, rfl⟩ := Prod.mk.inj (Except.ok.inj hend)
    exact ⟨[x₁, x₂, x₃, x₄], rfl, fun t ht => .unicode hdigits ht⟩

theorem stringText_of_stringChars {fuel : Nat} {acc cs rest : List Char} {s : String}
    (h : stringChars fuel acc cs = .ok (s, rest)) : ∃ t, cs = t ++ rest ∧ StringText t := by
  induction fuel generalizing acc cs with
  | zero => cases h
  | succ fuel ih =>
    cases cs with
    | nil => cases h
    | cons c cs =>
      -- One case for each of a closing quote, an escape and a plain character.
      rw [stringChars.eq_def] at h
      simp only at h
      split at h
      · next hquote =>
        obtain ⟨-, rfl⟩ := Prod.mk.inj (Except.ok.inj h)
        exact ⟨['"'], by rw [hquote]; rfl, .quote⟩
      next hquote =>
      split at h
      · next hslash =>
        subst hslash
        cases cs with
        | nil => cases h
        | cons e cs =>
          simp only at h
          split at h
          · next hu =>
            split at h
            · next hescape =>
              obtain ⟨u, rfl, hu'⟩ := exists_of_unicodeEscape hescape
              obtain ⟨t, rfl, ht⟩ := ih h
              exact ⟨_, by rw [hu]; simp, hu' t ht⟩
            · cases h
          · split at h
            · next hc =>
              obtain ⟨t, rfl, ht⟩ := ih h
              exact ⟨_, rfl, .simple (by rw [hc]; rfl) ht⟩
            · cases h
      · next hslash =>
        split at h
        · cases h
        · next hcontrol =>
          obtain ⟨t, rfl, ht⟩ := ih h
          exact ⟨_, rfl, .plain hquote hslash hcontrol ht⟩

/-- What is read as a string has the form of one. -/
theorem stringText_of_string {cs rest : List Char} {s : String}
    (h : Json.string cs = .ok (s, rest)) : ∃ t, cs = t ++ rest ∧ StringText t :=
  stringText_of_stringChars h

/-! ## Numbers -/

section Numbers

variable {t rest : List Char} (negative : Bool) (sig : Nat) (whole : Bool) (start : Int)

/-- Behind a number stands what stood behind its text. -/
theorem map_number_bind (x : Except JsonError Number) (rest : List Char) :
    Except.map (fun p => (p.1, rest)) (x >>= fun n => .ok (n, ([] : List Char))) =
      (x >>= fun n => .ok (n, rest)) := by
  cases x <;> rfl

theorem takeWhile_append_of_stops {ds : List Char} (hds : ∀ d ∈ ds, isDigit d = true)
    (hrest : Stops rest) : (ds ++ rest).takeWhile isDigit = ds := by
  rw [List.takeWhile_append_of_pos hds, hrest.takeWhile, List.append_nil]

theorem exponentNumber_append {d : Char} {sign ds : List Char}
    (hsign : sign = [] ∨ sign = ['+'] ∨ sign = ['-']) (hd : isDigit d = true)
    (hds : ∀ d ∈ ds, isDigit d = true) (hrest : Stops rest) :
    exponentNumber negative sig start (sign ++ d :: (ds ++ rest)) =
      (exponentNumber negative sig start (sign ++ d :: ds)).map fun p => (p.1, rest) := by
  have hplus : d ≠ '+' := by rintro rfl; simp [isDigit] at hd
  have hminus : d ≠ '-' := by rintro rfl; simp [isDigit] at hd
  have htake := takeWhile_append_of_stops hds hrest
  have hdrop := hrest.dropWhile_append hds
  have htake' := takeWhile_append_of_stops hds stops_nil
  have hdrop' := stops_nil.dropWhile_append hds
  rw [List.append_nil] at htake' hdrop'
  obtain rfl | rfl | rfl := hsign <;>
    simp [exponentNumber, hd, hplus, hminus, htake, hdrop, htake', hdrop',
      apply_ite (Except.map _), map_number_bind]

theorem finish_append :
    fractionNumber.finish negative sig whole start rest =
      (fractionNumber.finish negative sig whole start []).map fun p => (p.1, rest) := by
  cases whole <;> cases negative <;>
    simp [fractionNumber.finish, apply_ite (Except.map _), map_number_bind]

theorem fractionNumber_exponent (ht : ExponentText t) (hrest : Stops rest) :
    fractionNumber negative sig whole start (t ++ rest) =
      (fractionNumber negative sig whole start t).map fun p => (p.1, rest) := by
  cases ht with
  | none =>
    rw [List.nil_append, hrest.fractionNumber, stops_nil.fractionNumber, finish_append]
  | @some e d sign ds he hsign hd hds =>
    have hexponent := exponentNumber_append negative sig start hsign hd hds hrest
    obtain rfl | rfl := he <;> simp [fractionNumber, hexponent]

/-- Digits are taken into a significand up to the same one, whatever follows them. -/
theorem exists_absorb {ds : List Char} (hds : ∀ d ∈ ds, isDigit d = true) (sig taken : Nat) :
    ∃ sig' taken' ds', (∀ d ∈ ds', isDigit d = true) ∧
      ∀ t, t.dropWhile isDigit = t → absorb sig taken (ds ++ t) = (sig', taken', ds' ++ t) := by
  induction ds generalizing sig taken with
  | nil =>
    refine ⟨sig, taken, [], by simp, fun t ht => ?_⟩
    cases t with
    | nil => rfl
    | cons c t =>
      simp [absorb, isDigit_of_dropWhile ht]
  | cons d ds ih =>
    have hds := List.forall_mem_cons.1 hds
    -- Digits are taken while the significand has room; the others are left.
    by_cases hle : sig * 10 + digitValue d ≤ greatestSignificand
    · obtain ⟨sig', taken', ds', hds', habsorb⟩ := ih hds.2 (sig * 10 + digitValue d) (taken + 1)
      refine ⟨sig', taken', ds', hds', fun t ht => ?_⟩
      simp [absorb, hds.1, hle, habsorb t ht]
    · exact ⟨sig, taken, d :: ds, List.forall_mem_cons.2 hds, fun t _ => by simp [absorb, hle]⟩

theorem fractionNumber_append (ht : FractionText t) (hrest : Stops rest) :
    fractionNumber negative sig whole start (t ++ rest) =
      (fractionNumber negative sig whole start t).map fun p => (p.1, rest) := by
  cases ht with
  | none ht => exact fractionNumber_exponent negative sig whole start ht hrest
  | @some d ds t hd hds ht =>
    obtain ⟨sig', taken, ds', hds', habsorb⟩ :=
      exists_absorb (List.forall_mem_cons.2 ⟨hd, hds⟩) sig 0
    -- Digits that do not fit into the significand are dropped.
    have hread : ∀ rest, Stops rest → absorb sig 0 (d :: (ds ++ (t ++ rest))) =
        (sig', taken, ds' ++ (t ++ rest)) := fun rest hrest => habsorb _ (ht.dropWhile hrest)
    have hdrop : ∀ rest, Stops rest → (ds' ++ (t ++ rest)).dropWhile isDigit = t ++ rest := by
      intro rest hrest
      rw [List.dropWhile_append_of_pos hds', ht.dropWhile hrest]
    have hread' := hread [] stops_nil
    have hdrop' := hdrop [] stops_nil
    rw [List.append_nil] at hread' hdrop'
    cases ht with
    | none =>
      rw [List.append_nil] at hread' hdrop' ⊢
      have hread := hread rest hrest
      have hdrop := hdrop rest hrest
      rw [List.nil_append] at hread hdrop
      cases rest with
      | nil => simp [fractionNumber, hd, hread', hdrop', map_number_bind]
      | cons c rest =>
        have hc : c ≠ 'e' ∧ c ≠ 'E' := by simp_all [extendsNumber]
        simp [fractionNumber, hd, hread, hdrop, hread', hdrop', hc, map_number_bind]
    | @some e d sign ds he hsign hd hds =>
      have hexponent := exponentNumber_append negative sig' (start - taken) hsign hd hds hrest
      have hread := hread rest hrest
      have hdrop := hdrop rest hrest
      simp only [List.cons_append, List.append_assoc] at hread hdrop
      obtain rfl | rfl := he <;>
        simp [fractionNumber, *]

theorem unsignedNumber_append (ht : UnsignedText t) (hrest : Stops rest) :
    unsignedNumber negative (t ++ rest) =
      (unsignedNumber negative t).map fun p => (p.1, rest) := by
  cases ht with
  | @zero t ht =>
    have hfraction := fractionNumber_append negative 0 true 0 ht hrest
    -- No second digit follows the zero.
    have hnext : ∀ rest, Stops rest → unsignedNumber negative ('0' :: (t ++ rest)) =
        fractionNumber negative 0 true 0 (t ++ rest) := by
      intro rest hrest
      have hdrop := ht.dropWhile hrest
      cases hcs : t ++ rest with
      | nil => simp [unsignedNumber]
      | cons c r =>
        rw [hcs] at hdrop
        simp [unsignedNumber, isDigit_of_dropWhile hdrop]
    have hnext' := hnext [] stops_nil
    rw [List.append_nil] at hnext'
    rw [List.cons_append, hnext rest hrest, hnext', hfraction]
  | @digits d ds t hd hz hds ht =>
    obtain ⟨sig', taken, ds', hds', habsorb⟩ :=
      exists_absorb (List.forall_mem_cons.2 ⟨hd, hds⟩) 0 0
    have hfraction := fractionNumber_append negative sig' ds'.isEmpty ds'.length ht hrest
    have hnext : ∀ rest, Stops rest → unsignedNumber negative (d :: (ds ++ (t ++ rest))) =
        fractionNumber negative sig' ds'.isEmpty ds'.length (t ++ rest) := by
      intro rest hrest
      have hdigits := ht.dropWhile hrest
      have hread := habsorb _ hdigits
      have htake : (ds' ++ (t ++ rest)).takeWhile isDigit = ds' := by
        rw [List.takeWhile_append_of_pos hds']
        cases hcs : t ++ rest with
        | nil => simp
        | cons c cs =>
          rw [hcs] at hdigits
          simp [isDigit_of_dropWhile hdigits]
      have hdrop : (ds' ++ (t ++ rest)).dropWhile isDigit = t ++ rest := by
        rw [List.dropWhile_append_of_pos hds', hdigits]
      simp only [List.cons_append] at hread
      simp only [unsignedNumber, hz, hd, hread, htake, hdrop, if_true, if_false]
    have hnext' := hnext [] stops_nil
    rw [List.append_nil] at hnext'
    rw [List.cons_append, List.append_assoc, hnext rest hrest, hnext', hfraction]

theorem number_append (ht : NumberText t) (hrest : Stops rest) :
    number (t ++ rest) = (number t).map fun p => (p.1, rest) := by
  cases ht with
  | negative ht => exact unsignedNumber_append true ht hrest
  | positive ht =>
    have hhead : ∀ rest, number (t ++ rest) = unsignedNumber false (t ++ rest) := by
      intro rest
      cases t with
      | nil => cases ht
      | cons c t =>
        have hminus : c ≠ '-' := ne_of_isDigit ht.isDigit rfl
        simp [number, hminus]
    have hhead' := hhead []
    rw [List.append_nil] at hhead'
    rw [hhead, hhead', unsignedNumber_append false ht hrest]

/-- A number is judged by itself. -/
theorem yields_number (ht : NumberText t) : Yields number t (outcome number t) := by
  intro rest hrest
  rw [number_append ht hrest, outcome]
  cases number t <;> simp

/-! ### What is read as a number -/

variable {negative sig whole start} {cs : List Char} {n : Number}

theorem number_bind_eq_ok_iff {x : Except JsonError Number} {r : List Char} :
    (x >>= fun n => .ok (n, r)) = .ok (n, rest) ↔ x = .ok n ∧ r = rest := by
  cases x <;> simp

/-- An exponent is too great, or a power of ten; it ends at the same place. -/
theorem rest_of_amount {p : Prop} [Decidable p] {x : Except JsonError Number}
    {y : Except JsonError (Number × List Char)} {r : List Char}
    (hy : ∀ n rest', y = .ok (n, rest') → r = rest')
    (h : (if p then y else x >>= fun n => .ok (n, r)) = .ok (n, rest)) : r = rest := by
  split at h
  · exact hy _ _ h
  · exact (number_bind_eq_ok_iff.1 h).2

theorem skipExponent_of_exponentNumber
    (h : exponentNumber negative sig start cs = .ok (n, rest)) : skipExponent cs = .ok rest := by
  -- Both look at a sign, if there is one, and then at a digit.
  cases cs with
  | nil => cases h
  | cons c r =>
    by_cases hplus : c = '+'
    · cases r with
      | nil => simp [exponentNumber, hplus] at h
      | cons d r =>
      by_cases hd : isDigit d = true
      · simp [exponentNumber, skipExponent, hplus, hd] at h ⊢
        exact rest_of_amount (by grind) h
      · simp [exponentNumber, hplus, hd] at h
    by_cases hminus : c = '-'
    · cases r with
      | nil => simp [exponentNumber, hminus] at h
      | cons d r =>
      by_cases hd : isDigit d = true
      · simp [exponentNumber, skipExponent, hminus, hd] at h ⊢
        exact rest_of_amount (by grind) h
      · simp [exponentNumber, hminus, hd] at h
    by_cases hd : isDigit c = true
    · simp [exponentNumber, skipExponent, hplus, hminus, hd] at h ⊢
      exact rest_of_amount (by grind) h
    · simp [exponentNumber, hplus, hminus, hd] at h

theorem rest_of_finish (h : fractionNumber.finish negative sig whole start cs = .ok (n, rest)) :
    cs = rest := by
  rw [fractionNumber.finish] at h
  split at h
  · split at h
    · split at h
      all_goals exact (Prod.mk.inj (Except.ok.inj h)).2
    · exact (Prod.mk.inj (Except.ok.inj h)).2
  · exact (number_bind_eq_ok_iff.1 h).2

/-- The digits that do not fit are dropped as if none had been taken. -/
theorem dropWhile_absorb (sig taken : Nat) (cs : List Char) :
    (absorb sig taken cs).2.2.dropWhile isDigit = cs.dropWhile isDigit := by
  fun_induction absorb sig taken cs with
  | case1 sig taken c cs hc ih =>
    simp only [Bool.and_eq_true] at hc
    rw [ih, List.dropWhile_cons, if_pos hc.1]
  | case2 => rfl
  | case3 => rfl

theorem skipFractionPart_of_fractionNumber
    (h : fractionNumber negative sig whole start cs = .ok (n, rest)) :
    skipFractionPart cs = .ok rest := by
  rw [fractionNumber.eq_def] at h
  split at h
  · next r =>
    split at h
    · cases h
    next d r =>
    split at h
    · next hd =>
      -- The digits that are absorbed are those that are skipped.
      have hdrop := dropWhile_absorb sig 0 (d :: r)
      rw [List.dropWhile_cons, if_pos hd] at hdrop
      rw [skipFractionPart, if_pos hd, ← hdrop]
      generalize absorb sig 0 (d :: r) = taken at h
      obtain ⟨sig', taken, r'⟩ := taken
      simp only at h ⊢
      split at h
      · next c r'' hr =>
        rw [hr, skipExponentPart]
        split at h
        · next he => rw [if_pos he, skipExponent_of_exponentNumber h]
        · next he => rw [if_neg he, ← hr, (number_bind_eq_ok_iff.1 h).2]
      · next hr => rw [← (number_bind_eq_ok_iff.1 h).2, hr, skipExponentPart]
    · cases h
  · next c r hpoint =>
    have hskip : skipFractionPart (c :: r) = skipExponentPart (c :: r) := by
      rw [skipFractionPart.eq_def]
      split <;> simp_all
    rw [hskip, skipExponentPart]
    split at h
    · next he => rw [if_pos he, skipExponent_of_exponentNumber h]
    · next he => rw [if_neg he, rest_of_finish h]
  · rw [← rest_of_finish h]
    rfl

theorem skipUnsigned_of_unsignedNumber (h : unsignedNumber negative cs = .ok (n, rest)) :
    skipUnsigned cs = .ok rest := by
  rw [unsignedNumber.eq_def] at h
  split at h
  · cases h
  next c r =>
  rw [skipUnsigned.eq_def]
  simp only
  split at h
  · next hc =>
    rw [if_pos hc]
    cases r with
    | nil => exact skipFractionPart_of_fractionNumber h
    | cons d r =>
      simp only at h ⊢
      split at h
      · cases h
      · next hd => rw [if_neg hd, skipFractionPart_of_fractionNumber h]
  next hc =>
  rw [if_neg hc]
  split at h
  · next hd =>
    -- The digits that are absorbed are those that are skipped.
    have hdrop := dropWhile_absorb 0 0 (c :: r)
    rw [List.dropWhile_cons, if_pos hd] at hdrop
    rw [if_pos hd, ← hdrop]
    exact skipFractionPart_of_fractionNumber h
  · cases h

/-- What is read as a number has the form of one. -/
theorem numberText_of_number (h : number cs = .ok (n, rest)) :
    ∃ t, cs = t ++ rest ∧ NumberText t := by
  rw [number.eq_def] at h
  split at h
  · obtain ⟨t, rfl, ht⟩ := exists_unsignedText (skipUnsigned_of_unsignedNumber h)
    exact ⟨'-' :: t, rfl, .negative ht⟩
  · obtain ⟨t, ht, htext⟩ := exists_unsignedText (skipUnsigned_of_unsignedNumber h)
    exact ⟨t, ht, .positive htext⟩

end Numbers

end Json
end BlockFlow
