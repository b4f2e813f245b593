import Mathlib
import Multimethod.Proofs.Decimal.Numeral

/-!
# Reading written doubles

* `numeral_magnitudeText` — what is written for a finite double is a numeral of that double.
* `double?_doubleText` — a written double reads as itself, unless it is no number.
* `int64?_doubleText` — no written double reads as a whole number.
* `isSome_double?_of_integer?` — whatever reads as a whole number reads as a double too.

That the bits of a double make it up again, `Float.ofBits_toBits`, stands in no part of Mathlib; so this module
imports all of it.
-/

namespace Multimethod.Decimal

/-! ## Magnitudes -/

/-- **What is written for a finite double is a numeral of that double.** -/
theorem numeral_magnitudeText {bits : Nat} (hfinite : bits < infinityBits) :
    ∃ d, Numeral (magnitudeText bits) d ∧ d.bits = bits := by
  unfold magnitudeText
  rw [if_neg hfinite.ne]
  split
  · rename_i hzero
    exact ⟨_, @Numeral.point ['0'] ['0'] (List.cons_ne_nil _ _) rfl, hzero.symm⟩
  rename_i hzero
  have hread := bits_shortestFraction hzero hfinite
  rw [DecimalFraction.bits_eq] at hread
  obtain ⟨digits, point, hsignificant⟩ :
      ∃ digits point, significantDigits (shortestFraction bits) = (digits, point) := ⟨_, _, rfl⟩
  obtain ⟨hne, hdigits, hvalue⟩ :=
    significantDigits_spec (digits_shortestFraction_ne_zero hzero hfinite) hsignificant
  rw [hvalue] at hread
  rw [hsignificant]
  have hnumeral : ∃ d, Numeral (if -3 ≤ point ∧ point ≤ 16 then positional digits point
      else scientific digits point) d ∧
        d.value = digitsValue digits * 10 ^ (point - digits.length) := by
    split
    · exact numeral_positional hdigits point
    · exact numeral_scientific hdigits hne point
  obtain ⟨d, hd, hvalue'⟩ := hnumeral
  exact ⟨d, hd, by rw [DecimalFraction.bits_eq, hvalue', hread]⟩

theorem toLower_of_isDigit {c : Char} (hc : c.isDigit = true) : c.toLower = c := by
  simp only [Char.isDigit, Bool.and_eq_true, decide_eq_true_eq] at hc
  rw [Char.toLower, dif_neg]
  rintro ⟨hcapital, -⟩
  exact absurd (UInt32.le_trans hcapital hc.2) (by decide)

theorem magnitude?_of_isDigit {c : Char} (hc : c.isDigit = true) (rest : List Char) :
    magnitude? (c :: rest) = (fraction? (c :: rest)).map DecimalFraction.bits := by
  have hword {first : Char} {others : List Char} (hfirst : first.isDigit = false) :
      (c :: rest).map Char.toLower ≠ first :: others := by
    rw [List.map_cons, toLower_of_isDigit hc]
    intro heq
    rw [(List.cons.inj heq).1, hfirst] at hc
    cases hc
  have hinf : (c :: rest).map Char.toLower ≠ "inf".toList := hword (by decide)
  have hinfinity : (c :: rest).map Char.toLower ≠ "infinity".toList := hword (by decide)
  have hnan : (c :: rest).map Char.toLower ≠ "nan".toList := hword (by decide)
  simp only [magnitude?, hinf, hinfinity, hnan, or_self, if_false]

theorem magnitude?_magnitudeText {bits : Nat} (hnumber : bits ≤ infinityBits) :
    magnitude? (magnitudeText bits) = some bits := by
  rcases hnumber.eq_or_lt with rfl | hfinite
  · rfl
  obtain ⟨d, hd, hbits⟩ := numeral_magnitudeText hfinite
  obtain ⟨c, rest, hcs, hc⟩ := hd.exists_isDigit
  rw [hcs, magnitude?_of_isDigit hc, ← hcs, hd.fraction?_eq, Option.map_some, hbits]

theorem splitSign_magnitudeText {bits : Nat} (hnumber : bits ≤ infinityBits) :
    splitSign (magnitudeText bits) = (false, magnitudeText bits) := by
  rcases hnumber.eq_or_lt with rfl | hfinite
  · rfl
  obtain ⟨d, hd, -⟩ := numeral_magnitudeText hfinite
  obtain ⟨c, rest, hcs, hc⟩ := hd.exists_isDigit
  rw [hcs, splitSign_of_isDigit hc]

theorem not_all_isDigit_magnitudeText {bits : Nat} (hnumber : bits ≤ infinityBits) :
    (magnitudeText bits).all Char.isDigit = false := by
  rcases hnumber.eq_or_lt with rfl | hfinite
  · rfl
  obtain ⟨d, hd, -⟩ := numeral_magnitudeText hfinite
  exact hd.not_all_isDigit

/-! ## Doubles -/

theorem isNaN_eq_false_iff {x : Float} : isNaN x = false ↔ magnitudeBits x ≤ infinityBits := by
  rw [isNaN, decide_eq_false_iff_not, Nat.not_lt]

theorem signedDouble_magnitudeBits (x : Float) :
    signedDouble (signBit ≤ x.toBits.toNat) (magnitudeBits x) = x := by
  have hbits : (if signBit ≤ x.toBits.toNat then signBit + magnitudeBits x else magnitudeBits x) =
      x.toBits.toNat := by
    have hsize : x.toBits.toNat < 2 * signBit := x.toBits.toNat_lt
    unfold magnitudeBits
    split
    · rw [Nat.mod_eq_sub_mod ‹_›, Nat.mod_eq_of_lt (by omega)]
      omega
    · exact Nat.mod_eq_of_lt (by omega)
  simp only [signedDouble, decide_eq_true_eq, hbits, UInt64.ofNat_toNat, Float.ofBits_toBits]

theorem splitSign_doubleText {x : Float} (hnumber : isNaN x = false) :
    splitSign (doubleText x) = (decide (signBit ≤ x.toBits.toNat), magnitudeText (magnitudeBits x)) := by
  unfold doubleText
  rw [hnumber, if_neg Bool.false_ne_true]
  split
  · simp [splitSign, *]
  · rw [splitSign_magnitudeText (isNaN_eq_false_iff.1 hnumber)]
    simp [*]

/-- **A written double reads as itself**, unless it is no number. -/
theorem double?_doubleText {x : Float} (hnumber : isNaN x = false) :
    double? (doubleText x) = some x := by
  simp only [double?, splitSign_doubleText hnumber,
    magnitude?_magnitudeText (isNaN_eq_false_iff.1 hnumber), Option.map_some,
    signedDouble_magnitudeBits]

/-- **No written double reads as a whole number.** -/
theorem int64?_doubleText {x : Float} (hnumber : isNaN x = false) :
    int64? (doubleText x) = none := by
  have hnone : integer? (doubleText x) = none := by
    apply integer?_eq_none
    rw [splitSign_doubleText hnumber]
    exact not_all_isDigit_magnitudeText (isNaN_eq_false_iff.1 hnumber)
  rw [int64?, hnone]

/-! ## Characters of doubles -/

theorem all_isNumberCharacter_magnitudeText {bits : Nat} (hnumber : bits ≤ infinityBits) :
    (magnitudeText bits).all isNumberCharacter = true := by
  rcases hnumber.eq_or_lt with rfl | hfinite
  · rfl
  obtain ⟨d, hd, -⟩ := numeral_magnitudeText hfinite
  exact hd.all_isNumberCharacter

theorem all_isNumberCharacter_doubleText {x : Float} (hnumber : isNaN x = false) :
    (doubleText x).all isNumberCharacter = true := by
  have hmagnitude := all_isNumberCharacter_magnitudeText (isNaN_eq_false_iff.1 hnumber)
  unfold doubleText
  rw [hnumber, if_neg Bool.false_ne_true]
  split
  · exact hmagnitude
  · exact hmagnitude

/-- A written double starts with a digit or a minus sign, unless it is infinity. -/
theorem doubleText_eq_cons {x : Float} (hnumber : isNaN x = false)
    (hfinite : x.toBits.toNat ≠ infinityBits) :
    ∃ c rest, doubleText x = c :: rest ∧ (c = '-' ∨ c.isDigit = true) := by
  have hmagnitude := isNaN_eq_false_iff.1 hnumber
  unfold doubleText
  rw [hnumber, if_neg Bool.false_ne_true]
  split
  · exact ⟨_, _, rfl, .inl rfl⟩
  · have heq : magnitudeBits x = x.toBits.toNat := Nat.mod_eq_of_lt (Nat.not_le.1 ‹_›)
    obtain ⟨d, hd, -⟩ := numeral_magnitudeText (hmagnitude.lt_of_ne (heq ▸ hfinite))
    obtain ⟨c, rest, hcs, hc⟩ := hd.exists_isDigit
    exact ⟨c, rest, hcs, .inr hc⟩

/-! ## Whole numbers as doubles -/

theorem isSome_double?_of_integer? {cs : List Char} {n : Int} (hread : integer? cs = some n) :
    (double? cs).isSome = true := by
  obtain ⟨negative, digits, hsign⟩ : ∃ negative digits, splitSign cs = (negative, digits) :=
    ⟨_, _, rfl⟩
  have hdigits : digits ≠ [] ∧ digits.all Char.isDigit = true := by
    by_contra hnot
    have hguard : (digits.isEmpty || !digits.all Char.isDigit) = true := by
      rw [not_and_or, not_not, Bool.not_eq_true] at hnot
      rcases hnot with rfl | hnot <;> simp_all
    simp only [integer?, hsign, hguard, if_true] at hread
    cases hread
  obtain ⟨htake, hdrop⟩ := span_isDigit_self hdigits.2
  have hfraction : fraction? digits = some ⟨digitsValue digits, 0⟩ := by
    simp [fraction?, htake, hdrop, exponent?, hdigits.1]
  obtain ⟨c, rest, rfl⟩ := List.exists_cons_of_ne_nil hdigits.1
  rw [List.all_cons, Bool.and_eq_true] at hdigits
  simp only [double?, hsign, magnitude?_of_isDigit hdigits.2.1, hfraction, Option.map_some,
    Option.isSome_some]

end Multimethod.Decimal
