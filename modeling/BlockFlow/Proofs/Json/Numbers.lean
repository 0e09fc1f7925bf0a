import Mathlib.Data.List.TakeWhile
import BlockFlow.Json.Numeral
import BlockFlow.Proofs.Except

/-!
# The texts of numbers

A number goes on as long as it can, so that a scanner finds its end only by what stands behind it.
`Stops` says of a text that no number goes on in front of it. `NumberText` is the grammar of
numbers: skipping a number runs over just such a text (`UnsignedText.skip`, `exists_unsignedText`),
and every integer is written as one (`numberText_int`).

## Key results

- `number_int`: an integer of 64 bits is read back from its digits
- `UnsignedText.skip`, `exists_unsignedText`: the grammar says what is skipped as a number
-/

namespace BlockFlow.Json

/-! ## Where a number ends -/

/-- Whether a number may go on with a character. -/
def extendsNumber (c : Char) : Bool := isDigit c || c = '.' || c = 'e' || c = 'E'

/-- No number goes on in front of a text. -/
def Stops (cs : List Char) : Prop := ∀ c ∈ cs.head?, extendsNumber c = false

@[simp] theorem stops_nil : Stops [] := by simp [Stops]

@[simp] theorem stops_cons {c : Char} {cs : List Char} :
    Stops (c :: cs) ↔ extendsNumber c = false := by simp [Stops]

namespace Stops

variable {cs : List Char}

theorem dropWhile (h : Stops cs) : cs.dropWhile isDigit = cs := by
  cases cs with
  | nil => rfl
  | cons c cs => simp_all [extendsNumber]

theorem takeWhile (h : Stops cs) : cs.takeWhile isDigit = [] := by
  cases cs with
  | nil => rfl
  | cons c cs => simp_all [extendsNumber]

theorem skipExponentPart (h : Stops cs) : skipExponentPart cs = .ok cs := by
  cases cs with
  | nil => rfl
  | cons c cs => simp_all [Json.skipExponentPart, extendsNumber]

/-- After digits, what stops a number is all that is left. -/
theorem dropWhile_append (h : Stops cs) {ds : List Char} (hds : ∀ d ∈ ds, isDigit d = true) :
    (ds ++ cs).dropWhile isDigit = cs := by
  rw [List.dropWhile_append_of_pos hds, h.dropWhile]

end Stops

/-! ## The grammar of numbers -/

/-- The exponent of a number, or nothing. -/
inductive ExponentText : List Char → Prop
  | none : ExponentText []
  | some {e d : Char} {sign ds : List Char} (he : e = 'e' ∨ e = 'E')
      (hsign : sign = [] ∨ sign = ['+'] ∨ sign = ['-']) (hd : isDigit d = true)
      (hds : ∀ d ∈ ds, isDigit d = true) : ExponentText (e :: (sign ++ d :: ds))

/-- What follows the integer part of a number. -/
inductive FractionText : List Char → Prop
  | none {t : List Char} (ht : ExponentText t) : FractionText t
  | some {d : Char} {ds t : List Char} (hd : isDigit d = true) (hds : ∀ d ∈ ds, isDigit d = true)
      (ht : ExponentText t) : FractionText ('.' :: d :: (ds ++ t))

/-- A number without a sign. -/
inductive UnsignedText : List Char → Prop
  | zero {t : List Char} (ht : FractionText t) : UnsignedText ('0' :: t)
  | digits {d : Char} {ds t : List Char} (hd : isDigit d = true) (hz : d ≠ '0')
      (hds : ∀ d ∈ ds, isDigit d = true) (ht : FractionText t) : UnsignedText (d :: (ds ++ t))

/-- A number. -/
inductive NumberText : List Char → Prop
  | positive {t : List Char} (ht : UnsignedText t) : NumberText t
  | negative {t : List Char} (ht : UnsignedText t) : NumberText ('-' :: t)

/-- No digit is in front of a text. -/
theorem ExponentText.dropWhile {t rest : List Char} (h : ExponentText t) (hr : Stops rest) :
    (t ++ rest).dropWhile isDigit = t ++ rest := by
  cases h with
  | none => simpa using hr.dropWhile
  | some he =>
    obtain rfl | rfl := he <;> simp [isDigit]

theorem ExponentText.skip {t rest : List Char} (h : ExponentText t) (hr : Stops rest) :
    skipExponentPart (t ++ rest) = .ok rest := by
  cases h with
  | none => exact hr.skipExponentPart
  | @some e d sign ds he hsign hd hds =>
    have hdigits := hr.dropWhile_append hds
    have hplus : d ≠ '+' := by rintro rfl; simp [isDigit] at hd
    have hminus : d ≠ '-' := by rintro rfl; simp [isDigit] at hd
    obtain rfl | rfl | rfl := hsign <;>
      simp [skipExponentPart, skipExponent, he, hd, hdigits, hplus, hminus]

theorem FractionText.skip {t rest : List Char} (h : FractionText t) (hr : Stops rest) :
    skipFractionPart (t ++ rest) = .ok rest := by
  cases h with
  | none ht =>
    rw [← ht.skip hr]
    -- Neither an exponent nor what stops a number begins with a point.
    cases ht with
    | none =>
      cases rest with
      | nil => rfl
      | cons c rest =>
        have hpoint : c ≠ '.' := by rintro rfl; simp [extendsNumber] at hr
        simp [skipFractionPart, hpoint]
    | some he =>
      obtain rfl | rfl := he <;> simp [skipFractionPart]
  | @some d ds t hd hds ht =>
    have hdigits : (ds ++ (t ++ rest)).dropWhile isDigit = t ++ rest := by
      rw [List.dropWhile_append_of_pos hds, ht.dropWhile hr]
    simp [skipFractionPart, hd, hdigits, ht.skip hr]

/-- A text from which no digits are dropped has none in front. -/
theorem isDigit_of_dropWhile {c : Char} {cs : List Char}
    (h : (c :: cs).dropWhile isDigit = c :: cs) : isDigit c = false := by
  have hhead := List.head?_dropWhile_not isDigit (c :: cs)
  rw [h] at hhead
  simpa using hhead

/-- What follows the integer part has no digit in front. -/
theorem FractionText.dropWhile {t rest : List Char} (h : FractionText t) (hr : Stops rest) :
    (t ++ rest).dropWhile isDigit = t ++ rest := by
  cases h with
  | none ht => exact ht.dropWhile hr
  | some => simp [isDigit]

theorem UnsignedText.skip {t rest : List Char} (h : UnsignedText t) (hr : Stops rest) :
    skipUnsigned (t ++ rest) = .ok rest := by
  cases h with
  | @zero t ht =>
    have hnext := ht.dropWhile hr
    have hskip := ht.skip hr
    cases hcs : t ++ rest with
    | nil =>
      -- At the end of the text there is no second digit to look for.
      rw [hcs] at hskip
      simpa [skipUnsigned, hcs, skipFractionPart, skipExponentPart] using hskip
    | cons d r =>
      rw [hcs] at hskip hnext
      have hd := isDigit_of_dropWhile hnext
      simp [skipUnsigned, hcs, hd, hskip]
  | @digits d ds t hd hz hds ht =>
    have hdigits : (ds ++ (t ++ rest)).dropWhile isDigit = t ++ rest := by
      rw [List.dropWhile_append_of_pos hds, ht.dropWhile hr]
    simp [skipUnsigned, hd, hz, hdigits, ht.skip hr]

/-! ## What skipping runs over -/

theorem exists_digits {cs rest : List Char}
    (h : (match cs with
      | c :: r => if isDigit c then .ok (r.dropWhile isDigit) else .error .invalidNumber
      | [] => .error .invalidNumber : Except JsonError (List Char)) = .ok rest) :
    ∃ d ds, cs = d :: (ds ++ rest) ∧ isDigit d = true ∧ ∀ c ∈ ds, isDigit c = true := by
  cases cs with
  | nil => cases h
  | cons d r =>
    simp only at h
    split at h
    · next hd =>
      obtain rfl := Except.ok.inj h
      exact ⟨d, r.takeWhile isDigit, by rw [List.takeWhile_append_dropWhile], hd,
        fun _ => List.mem_takeWhile_imp⟩
    · cases h

theorem exists_of_skipExponent {cs rest : List Char} (h : skipExponent cs = .ok rest) :
    ∃ sign d ds, (sign = [] ∨ sign = ['+'] ∨ sign = ['-']) ∧ cs = sign ++ d :: (ds ++ rest) ∧
      isDigit d = true ∧ ∀ c ∈ ds, isDigit c = true := by
  rw [skipExponent.eq_def] at h
  split at h <;> obtain ⟨d, ds, rfl, hd, hds⟩ := exists_digits h
  · exact ⟨['+'], d, ds, .inr (.inl rfl), rfl, hd, hds⟩
  · exact ⟨['-'], d, ds, .inr (.inr rfl), rfl, hd, hds⟩
  · exact ⟨[], d, ds, .inl rfl, rfl, hd, hds⟩

theorem exists_exponentText {cs rest : List Char} (h : skipExponentPart cs = .ok rest) :
    ∃ t, cs = t ++ rest ∧ ExponentText t := by
  cases cs with
  | nil =>
    simp only [skipExponentPart, Except.ok.injEq] at h
    exact ⟨[], h, .none⟩
  | cons e r =>
    rw [skipExponentPart] at h
    split at h
    · next he =>
      have he : e = 'e' ∨ e = 'E' := by simpa using he
      obtain ⟨sign, d, ds, hsign, rfl, hd, hds⟩ := exists_of_skipExponent h
      exact ⟨e :: (sign ++ d :: ds), by simp, .some he hsign hd hds⟩
    · obtain rfl := Except.ok.inj h
      exact ⟨[], rfl, .none⟩

theorem exists_fractionText {cs rest : List Char} (h : skipFractionPart cs = .ok rest) :
    ∃ t, cs = t ++ rest ∧ FractionText t := by
  rw [skipFractionPart.eq_def] at h
  split at h
  · next d r =>
    split at h
    · next hd =>
      obtain ⟨t, ht, hexp⟩ := exists_exponentText h
      refine ⟨'.' :: d :: (r.takeWhile isDigit ++ t), ?_,
        .some hd (fun _ => List.mem_takeWhile_imp) hexp⟩
      simp [← ht, List.takeWhile_append_dropWhile]
    · cases h
  · cases h
  · obtain ⟨t, ht, hexp⟩ := exists_exponentText h
    exact ⟨t, ht, .none hexp⟩

theorem exists_unsignedText {cs rest : List Char} (h : skipUnsigned cs = .ok rest) :
    ∃ t, cs = t ++ rest ∧ UnsignedText t := by
  cases cs with
  | nil => cases h
  | cons c r =>
    rw [skipUnsigned.eq_def] at h
    simp only at h
    -- After a zero no digit may follow; after any other digit all digits are taken.
    split at h
    · next hc =>
      subst hc
      have hfraction : skipFractionPart r = .ok rest := by
        cases r with
        | nil => exact h
        | cons d r =>
          simp only at h
          split at h
          · cases h
          · exact h
      obtain ⟨t, rfl, ht⟩ := exists_fractionText hfraction
      exact ⟨'0' :: t, rfl, .zero ht⟩
    · next hz =>
      split at h
      · next hd =>
        obtain ⟨t, ht, hfraction⟩ := exists_fractionText h
        refine ⟨c :: (r.takeWhile isDigit ++ t), ?_,
          .digits hd hz (fun _ => List.mem_takeWhile_imp) hfraction⟩
        simp [← ht, List.takeWhile_append_dropWhile]
      · cases h

/-! ## Integers -/

/-- The digits of a natural number are digits. -/
theorem isDigit_of_mem_toDigits (n : Nat) {c : Char} (h : c ∈ Nat.toDigits 10 n) :
    isDigit c = true :=
  Nat.isDigit_of_mem_toDigits (by decide) (by decide) h

theorem exists_toDigits (n : Nat) :
    ∃ d ds, Nat.toDigits 10 n = d :: ds ∧ isDigit d = true ∧ ∀ c ∈ ds, isDigit c = true := by
  obtain ⟨d, ds, hdigits⟩ := List.exists_cons_of_ne_nil (Nat.toDigits_ne_nil (b := 10) (n := n))
  have hall : ∀ c ∈ d :: ds, isDigit c = true := by
    intro c hc
    exact isDigit_of_mem_toDigits n (by rwa [hdigits])
  exact ⟨d, ds, hdigits, List.forall_mem_cons.1 hall⟩

/-- Only the digits of zero begin with a zero. -/
theorem toDigits_head_ne_zero {n : Nat} (hn : n ≠ 0) {d : Char} {ds : List Char}
    (hdigits : Nat.toDigits 10 n = d :: ds) : d ≠ '0' := by
  induction n using Nat.strongRecOn generalizing ds with
  | ind n ih =>
    by_cases hlt : n < 10
    · rw [Nat.toDigits_of_lt_base hlt] at hdigits
      obtain ⟨rfl, -⟩ := List.cons.inj hdigits
      have hchar : ∀ m : Fin 10, m.val ≠ 0 → m.val.digitChar ≠ '0' := by decide
      exact hchar ⟨n, hlt⟩ hn
    · rw [Nat.toDigits_of_base_le (by decide) (by omega)] at hdigits
      -- The digits of the quotient come first, and there is one.
      obtain ⟨d', ds', hquotient, -⟩ := exists_toDigits (n / 10)
      rw [hquotient, List.cons_append] at hdigits
      obtain ⟨rfl, -⟩ := List.cons.inj hdigits
      exact ih (n / 10) (by omega) (by omega) hquotient

theorem le_ofDigitChars (ds : List Char) (sig : Nat) : sig ≤ Nat.ofDigitChars 10 ds sig := by
  induction ds generalizing sig with
  | nil => simp
  | cons d ds ih =>
    rw [Nat.ofDigitChars_cons]
    have := ih (10 * sig + (d.toNat - '0'.toNat))
    omega

/-- Digits that fit are all taken into the significand. -/
theorem absorb_append {ds rest : List Char} (sig taken : Nat) (hds : ∀ d ∈ ds, isDigit d = true)
    (hr : Stops rest) (hfits : Nat.ofDigitChars 10 ds sig ≤ greatestSignificand) :
    absorb sig taken (ds ++ rest) = (Nat.ofDigitChars 10 ds sig, taken + ds.length, rest) := by
  induction ds generalizing sig taken with
  | nil =>
    cases rest with
    | nil => rfl
    | cons c rest =>
      have hc : isDigit c = false := by simp_all [extendsNumber]
      simp [absorb, hc]
  | cons d ds ih =>
    have hd : isDigit d = true := hds d (by simp)
    rw [Nat.ofDigitChars_cons, Nat.mul_comm] at hfits
    -- The significand only grows from here, so that it does not overflow with this digit either.
    have hle : sig * 10 + digitValue d ≤ greatestSignificand := by
      have := le_ofDigitChars ds (sig * 10 + (d.toNat - '0'.toNat))
      simp only [digitValue]
      omega
    have htail := ih _ (taken + 1) (fun d hd => hds d (List.mem_cons_of_mem _ hd)) hfits
    simp only [digitValue] at hle
    simp only [List.cons_append, absorb, hd, digitValue, hle, decide_true, Bool.and_self, if_true,
      htail, Nat.ofDigitChars_cons, Nat.mul_comm 10 sig, List.length_cons]
    congr 2
    omega

theorem Stops.fractionNumber {rest : List Char} (hr : Stops rest) (negative : Bool) (sig : Nat)
    (whole : Bool) (start : Int) :
    fractionNumber negative sig whole start rest =
      fractionNumber.finish negative sig whole start rest := by
  cases rest with
  | nil => rfl
  | cons c rest =>
    simp [extendsNumber] at hr
    simp [Json.fractionNumber, hr]

/-- The digits of a natural number give its value. -/
theorem unsignedNumber_toDigits {n : Nat} (hn : n ≤ greatestSignificand) {rest : List Char}
    (hr : Stops rest) (negative : Bool) :
    unsignedNumber negative (Nat.toDigits 10 n ++ rest) =
      fractionNumber.finish negative n true 0 rest := by
  by_cases hzero : n = 0
  · subst hzero
    rw [Nat.toDigits_zero, List.singleton_append, unsignedNumber.eq_def]
    simp only [if_true]
    cases rest with
    | nil => rfl
    | cons c rest =>
      have hc : isDigit c = false := by simp_all [extendsNumber]
      simpa [hc] using hr.fractionNumber negative 0 true 0
  · obtain ⟨d, ds, hdigits, hd, -⟩ := exists_toDigits n
    -- A number that is not zero does not begin with one.
    have hz := toDigits_head_ne_zero hzero hdigits
    have habsorb := absorb_append 0 0 (fun _ => isDigit_of_mem_toDigits n) hr
      (by rwa [Nat.ofDigitChars_ten_toDigits])
    rw [Nat.ofDigitChars_ten_toDigits, hdigits, List.cons_append] at habsorb
    rw [hdigits, List.cons_append]
    simp [unsignedNumber, hz, hd, habsorb, hr.takeWhile, hr.dropWhile, hr.fractionNumber]

/-- Digits begin with no sign. -/
theorem number_toDigits (n : Nat) (rest : List Char) :
    number (Nat.toDigits 10 n ++ rest) = unsignedNumber false (Nat.toDigits 10 n ++ rest) := by
  obtain ⟨d, ds, hdigits, hd, -⟩ := exists_toDigits n
  have hminus : d ≠ '-' := by rintro rfl; simp [isDigit] at hd
  simp [hdigits, number, hminus]

/-- The text of an integer. -/
theorem toList_toString_int (n : Int) :
    (toString n).toList =
      if 0 ≤ n then Nat.toDigits 10 n.toNat else '-' :: Nat.toDigits 10 (-n).toNat := by
  rw [Int.toString_eq_repr, Int.repr_eq_if]
  split <;> simp [Nat.toList_repr]

/-- The integers of 64 bits, signed or unsigned. -/
def IsWord (n : Int) : Prop := -9223372036854775808 ≤ n ∧ n ≤ 18446744073709551615

/-- An integer of 64 bits is read back from its digits. -/
theorem number_int {n : Int} (hn : IsWord n) {rest : List Char} (hr : Stops rest) :
    number ((toString n).toList ++ rest) = .ok (.int n, rest) := by
  obtain ⟨hleast, hgreatest⟩ := hn
  rw [toList_toString_int]
  split
  · next hpos =>
    have hfits : n.toNat ≤ greatestSignificand := by rw [greatestSignificand]; omega
    have hint : (n.toNat : Int) = n := by omega
    rw [number_toDigits, unsignedNumber_toDigits hfits hr]
    simp [fractionNumber.finish, hint]
  · next hneg =>
    obtain ⟨m, rfl⟩ : ∃ m : Nat, n = -m := ⟨(-n).toNat, by omega⟩
    have hfits : m ≤ greatestSignificand := by rw [greatestSignificand]; omega
    -- A negative zero would be taken for a floating point number.
    have hzero : m ≠ 0 := by omega
    have hleast : ¬9223372036854775808 < m := by omega
    rw [Int.neg_neg, Int.toNat_natCast, List.cons_append, number, unsignedNumber_toDigits hfits hr]
    simp [fractionNumber.finish, hzero, hleast]

/-- The digits of a natural number are a number without a sign. -/
theorem unsignedText_toDigits (n : Nat) : UnsignedText (Nat.toDigits 10 n) := by
  by_cases hzero : n = 0
  · subst hzero
    rw [Nat.toDigits_zero]
    exact .zero (.none .none)
  · obtain ⟨d, ds, hdigits, hd, hds⟩ := exists_toDigits n
    have htext := UnsignedText.digits hd (toDigits_head_ne_zero hzero hdigits) hds (.none .none)
    rwa [List.append_nil, ← hdigits] at htext

theorem numberText_int (n : Int) : NumberText (toString n).toList := by
  rw [toList_toString_int]
  split
  · exact .positive (unsignedText_toDigits _)
  · exact .negative (unsignedText_toDigits _)

end BlockFlow.Json
