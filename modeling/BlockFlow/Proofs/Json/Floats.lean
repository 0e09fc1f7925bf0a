import Mathlib.Tactic.Ring
import BlockFlow.Proofs.Json.Numbers

/-!
# The texts of floating point numbers

The shortest decimal of a number that is not zero has digits other than zero
(`digits_shortest_ne_zero`): the search for it comes to a grid so fine that the number stands above
its first point. So its digits begin with no zero, and wherever the layout puts the point, the text
is a number.

## Key results

- `numberText_chars`: the text of every number is one
-/

namespace BlockFlow.Decimal

/-! ## The shortest decimal -/

theorem Target.onGrid_ne_zero {t : Target} {e : Int} {d : Nat} (h : t.onGrid e = some d) :
    d ≠ 0 := by
  simp only [Target.onGrid] at h
  generalize (if t.roundsUp e then t.floorAt e + 1 else t.floorAt e) = near at h
  generalize (if t.roundsUp e then t.floorAt e else t.floorAt e + 1) = far at h
  split at h
  · simp_all
  · split at h <;> simp_all

/-- The search ends with a decimal above zero if its finest grid has one below the value. -/
theorem Target.search_ne_zero {t : Target} {fuel : Nat} {e : Int}
    (h : t.floorAt (e - fuel) ≠ 0) : (t.search fuel e).digits ≠ 0 := by
  induction fuel generalizing e with
  | zero => simpa [Target.search] using h
  | succ fuel ih =>
    rw [Target.search]
    cases hd : t.onGrid e with
    | some d => exact Target.onGrid_ne_zero hd
    | none =>
      apply ih
      have hexp : e - 1 - (fuel : Int) = e - (fuel + 1 : Nat) := by omega
      rwa [hexp]

theorem Digits.trim_ne_zero {d : Digits} (h : d.digits ≠ 0) (fuel : Nat) :
    (d.trim fuel).digits ≠ 0 := by
  induction fuel generalizing d with
  | zero => exact h
  | succ fuel ih =>
    rw [Digits.trim]
    split
    · next hd =>
      simp at hd
      apply ih
      show d.digits / 10 ≠ 0
      omega
    · exact h

/-- A grid on which a number has a point below it: three binary digits are less than a decimal
one. -/
theorem Target.floorAt_ofBinary_ne_zero (places : Nat) {m : Nat} {q : Int} (hm : m ≠ 0)
    (hq : -(3 * places : Nat) ≤ q) (narrow : Bool) :
    (Target.ofBinary m q narrow).floorAt (-places) ≠ 0 := by
  -- In binary places a power of eight is enough, and eight is less than ten.
  have hdown : 2 ^ (-q).toNat ≤ 10 ^ places := by
    calc 2 ^ (-q).toNat ≤ 2 ^ (3 * places) := Nat.pow_le_pow_right (by decide) (by omega)
      _ = 8 ^ places := Nat.pow_mul 2 3 places
      _ ≤ 10 ^ places := Nat.pow_le_pow_left (by decide) places
  have hup : 0 < m * 2 ^ q.toNat := Nat.mul_pos (Nat.pos_of_ne_zero hm) (Nat.two_pow_pos _)
  have hle : 4 * 2 ^ (-q).toNat ≤ 4 * m * 2 ^ q.toNat * 10 ^ places := by
    calc 4 * 2 ^ (-q).toNat ≤ 4 * 10 ^ places := Nat.mul_le_mul_left 4 hdown
      _ ≤ m * 2 ^ q.toNat * (4 * 10 ^ places) := Nat.le_mul_of_pos_left _ hup
      _ = 4 * m * 2 ^ q.toNat * 10 ^ places := by ring
  have hpos : 0 < 4 * 2 ^ (-q).toNat := Nat.mul_pos (by decide) (Nat.two_pow_pos _)
  simp only [Target.floorAt, Target.ofBinary, pow2, pow10, Nat.pow_eq, Int.neg_neg,
    Int.toNat_natCast, Int.toNat_neg_natCast, Nat.pow_zero, Nat.mul_one]
  exact (Nat.div_pos hle hpos).ne'

theorem digits_shortest_ne_zero {bits : Nat} (h : bits ≠ 0) : (shortest bits).digits ≠ 0 := by
  simp only [shortest]
  apply Digits.trim_ne_zero
  apply Target.search_ne_zero
  -- The finest grid is that of `10^(310 - 700)`, and the least exponent is that of the subnormals.
  apply Target.floorAt_ofBinary_ne_zero 390
  · split
    · next hbiased =>
      have hlt : bits < pow2 52 := by
        rcases Nat.div_eq_zero_iff.1 hbiased with h | h
        · exact absurd h (by decide)
        · exact h
      rwa [Nat.mod_eq_of_lt hlt]
    · have : 0 < pow2 52 := by decide
      omega
  · have hbiased : 0 ≤ Int.ofNat (bits / pow2 52) := Int.natCast_nonneg _
    split <;> omega

end BlockFlow.Decimal

namespace BlockFlow.Json

open Decimal

/-! ## Its layout -/

theorem FractionText.point (ds : List Char) {t : List Char} (hne : ds ≠ [])
    (hds : ∀ d ∈ ds, isDigit d = true) (ht : ExponentText t) : FractionText ('.' :: (ds ++ t)) := by
  obtain ⟨d, ds, rfl⟩ := List.exists_cons_of_ne_nil hne
  exact .some (hds d (by simp)) (fun c hc => hds c (List.mem_cons_of_mem d hc)) ht

/-- An exponent written with its sign. -/
theorem exponentText_toDigits (sign : List Char) (hsign : sign = ['+'] ∨ sign = ['-']) (n : Nat) :
    ExponentText ('e' :: (sign ++ Nat.toDigits 10 n)) := by
  obtain ⟨d, ds, hdigits, hd, hds⟩ := exists_toDigits n
  rw [hdigits]
  exact .some (.inl rfl) (.inr hsign) hd hds

theorem isDigit_of_mem_zeros {n : Nat} {c : Char} (h : c ∈ List.replicate n '0') :
    isDigit c = true := by
  rw [List.eq_of_mem_replicate h]
  rfl

/-- A decimal other than zero is a number wherever the layout puts the point. -/
theorem unsignedText_write {d : Digits} (hd : d.digits ≠ 0) :
    UnsignedText (floatLayout.write d).toList := by
  obtain ⟨c, cs, hdigits, hc, hcs⟩ := exists_toDigits d.digits
  have hz := toDigits_head_ne_zero hd hdigits
  have htext : (toString d.digits).toList = c :: cs := by
    rw [← hdigits]
    exact Nat.toList_repr
  have hlength : (toString d.digits).length = cs.length + 1 := by
    rw [← String.length_toList, htext, List.length_cons]
  simp only [Layout.write]
  split
  · split
    · -- A whole number, with zeros behind its digits.
      have h : UnsignedText (c :: ((cs ++ List.replicate d.exponent.toNat '0') ++ ['.', '0'])) := by
        refine .digits hc hz ?_ (FractionText.point ['0'] (t := []) (by simp) ?_ .none)
        · simp only [List.mem_append]
          rintro x (hx | hx)
          · exact hcs x hx
          · exact isDigit_of_mem_zeros hx
        · simp [isDigit]
      simpa [hdigits] using h
    · next hexp =>
      split
      · next hlead =>
        -- The point stands between two digits.
        obtain ⟨n, hn⟩ : ∃ n, (d.exponent + ↑(toString d.digits).length - 1 + 1).toNat = n + 1 :=
          ⟨(d.exponent + ↑(toString d.digits).length - 1).toNat, by omega⟩
        have hlt : n < cs.length := by omega
        have h : UnsignedText (c :: (cs.take n ++ '.' :: (cs.drop n ++ []))) := by
          refine .digits hc hz (fun x hx => hcs x (List.mem_of_mem_take hx))
            (FractionText.point _ ?_ (fun x hx => hcs x (List.mem_of_mem_drop hx)) .none)
          simpa [List.drop_eq_nil_iff] using hlt
        rw [hn, htext]
        simpa [String.toList_append] using h
      · -- Zeros stand between the point and the digits.
        generalize (-(d.exponent + ↑(toString d.digits).length - 1) - 1).toNat = n
        have h : UnsignedText ('0' :: '.' :: ((List.replicate n '0' ++ c :: cs) ++ [])) := by
          refine .zero (FractionText.point _ (by simp) ?_ .none)
          simp only [List.mem_append, List.mem_cons]
          rintro x (hx | rfl | hx)
          · exact isDigit_of_mem_zeros hx
          · exact hc
          · exact hcs x hx
        simpa [hdigits] using h
  · -- One digit stands before the point, and an exponent behind the others.
    generalize (d.exponent + ↑(toString d.digits).length - 1) = lead
    have hexp : ExponentText
        ((if 0 ≤ lead then "e+" else "e-").toList ++ Nat.toDigits 10 lead.natAbs) := by
      split
      · exact exponentText_toDigits ['+'] (.inl rfl) _
      · exact exponentText_toDigits ['-'] (.inr rfl) _
    have htail : UnsignedText (c :: ((if cs = [] then [] else '.' :: cs) ++
        ((if 0 ≤ lead then "e+" else "e-").toList ++ Nat.toDigits 10 lead.natAbs))) := by
      split
      · exact @UnsignedText.digits c [] _ hc hz (by simp) (.none hexp)
      · next hne =>
        exact @UnsignedText.digits c [] _ hc hz (by simp) (FractionText.point cs hne hcs hexp)
    rw [htext]
    show UnsignedText (String.toList ((if String.ofList cs = "" then String.ofList [c] else
      String.ofList [c] ++ "." ++ String.ofList cs) ++ _ ++ _))
    have hempty : String.ofList cs = "" ↔ cs = [] := by
      rw [← String.toList_inj]
      simp
    simp only [hempty]
    split at htail
    · next h =>
      simpa [h, floatLayout] using htail
    · next h =>
      simpa [h, floatLayout] using htail

/-- The text of a floating point number is a number. -/
theorem numberText_float (x : Float) : NumberText (floatText x).toList := by
  simp only [floatText]
  have hzero : UnsignedText ['0', '.', '0'] :=
    .zero (FractionText.point ['0'] (t := []) (by simp) (by simp [isDigit]) .none)
  split
  · split
    · exact .negative hzero
    · exact .positive hzero
  · next hne =>
    have hwrite := unsignedText_write (digits_shortest_ne_zero hne)
    split
    · simpa using NumberText.negative hwrite
    · simpa using NumberText.positive hwrite

/-- The text of every number is one. -/
theorem numberText_chars (n : Number) : NumberText n.text.toList := by
  cases n with
  | int n => exact numberText_int n
  | float x => exact numberText_float x

end BlockFlow.Json
