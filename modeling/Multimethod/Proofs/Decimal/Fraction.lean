import Multimethod.Decimal.Notation
import Multimethod.Proofs.Decimal.Nearest

/-!
# Decimal fractions and doubles

* `DecimalFraction.bits_eq` — the bits of a decimal fraction depend on its value only.
* `bits_shortestFraction` — the fraction that is written for a finite double reads back to it.
-/

namespace Multimethod.Decimal

namespace DecimalFraction

def value (d : DecimalFraction) : ℚ := d.digits * 10 ^ d.exponent

theorem value_nonneg (d : DecimalFraction) : 0 ≤ d.value := by
  unfold value
  positivity

theorem large_of_exponent {d : DecimalFraction} (hdigits : d.digits ≠ 0)
    (hexponent : 400 < d.exponent) : 2 ^ 1025 ≤ d.value := by
  have hone : (1 : ℚ) ≤ d.digits := by exact_mod_cast Nat.one_le_iff_ne_zero.2 hdigits
  calc (2 : ℚ) ^ 1025 ≤ 2 ^ (3 * 400) := pow_le_pow_right₀ one_le_two (by norm_num)
    _ = (2 ^ 3) ^ 400 := pow_mul 2 3 400
    _ ≤ 10 ^ 400 := by gcongr; norm_num
    _ = 10 ^ (400 : Int) := (zpow_natCast 10 400).symm
    _ ≤ 10 ^ d.exponent := zpow_le_zpow_right₀ (by norm_num) hexponent.le
    _ ≤ d.value := le_mul_of_one_le_left (by positivity) hone

/-- An exponent that digits cannot make up for leads below all doubles. -/
theorem small_of_exponent {d : DecimalFraction}
    (hexponent : d.exponent < -(400 + (d.digits.log2 : Int))) : d.value < 2 ^ (-1075 : Int) := by
  obtain ⟨k, hk⟩ : ∃ k : Nat, d.exponent = -k := ⟨(-d.exponent).toNat, by omega⟩
  have hdigits : (d.digits : ℚ) < 2 ^ (d.digits.log2 + 1) := by exact_mod_cast Nat.lt_log2_self
  have hpower : (10 : ℚ) ^ d.exponent ≤ 2 ^ (-(3 * k : Nat) : Int) := by
    rw [hk, zpow_neg, zpow_neg, zpow_natCast, zpow_natCast, pow_mul]
    gcongr
    norm_num
  calc d.value < 2 ^ (d.digits.log2 + 1) * 10 ^ d.exponent := by
        unfold value
        gcongr
    _ ≤ 2 ^ (d.digits.log2 + 1) * 2 ^ (-(3 * k : Nat) : Int) := by gcongr
    _ = 2 ^ ((d.digits.log2 + 1 : Nat) + -(3 * k : Nat) : Int) := by
        rw [zpow_add₀ two_ne_zero, zpow_natCast]
    _ ≤ 2 ^ (-1075 : Int) := zpow_le_zpow_right₀ one_le_two (by omega)

/-- **The bits of a decimal fraction are those of the double nearest to its value.** The exponents
that are settled without the power make no difference. -/
theorem bits_eq (d : DecimalFraction) : d.bits = nearest d.value := by
  unfold bits
  split
  · simp [value, nearest, *]
  rename_i hdigits
  split
  · exact (nearest_eq_infinityBits (large_of_exponent hdigits ‹_›)).symm
  split
  · exact (nearest_eq_zero d.value_nonneg (small_of_exponent ‹_›)).symm
  · dsimp only
    rw [nearestBits_eq _ (scaled_den_pos _ (by decide) _), scaled_value]
    rfl

end DecimalFraction

/-! ## The fraction that is written -/

theorem value_exactFraction (bits : Nat) :
    (exactFraction bits).value = significand bits * 2 ^ binaryExponent bits := by
  unfold exactFraction
  generalize binaryExponent bits = e
  dsimp only
  split
  · obtain ⟨k, rfl⟩ := Int.eq_ofNat_of_zero_le ‹0 ≤ e›
    simp [DecimalFraction.value]
  · obtain ⟨k, rfl⟩ : ∃ k : Nat, e = -k := ⟨(-e).toNat, by omega⟩
    have hten : (10 : ℚ) ^ k = 5 ^ k * 2 ^ k := by rw [← mul_pow]; norm_num
    simp only [DecimalFraction.value, neg_neg, Int.toNat_natCast, Nat.pow_eq, Nat.cast_mul,
      Nat.cast_pow, Nat.cast_ofNat, zpow_neg, zpow_natCast, hten]
    field_simp

theorem bits_exactFraction {bits : Nat} (hzero : bits ≠ 0) (hfinite : bits < infinityBits) :
    (exactFraction bits).bits = bits := by
  rw [DecimalFraction.bits_eq, value_exactFraction, nearest_significand hzero hfinite]

theorem bits_of_onGrid? {bits num den : Nat} {unit : Int} {d : DecimalFraction}
    (hgrid : onGrid? bits num den unit = some d) : d.bits = bits := by
  unfold onGrid? at hgrid
  extract_lets a b below above at hgrid
  split at hgrid
  · rename_i hbelow
    rw [← Option.some.inj hgrid]
    exact hbelow.1
  split at hgrid
  · rename_i habove
    rw [← Option.some.inj hgrid]
    exact habove
  · cases hgrid

/-- **The fraction that is written for a finite double reads back to it.** -/
theorem bits_shortestFraction {bits : Nat} (hzero : bits ≠ 0) (hfinite : bits < infinityBits) :
    (shortestFraction bits).bits = bits := by
  dsimp only [shortestFraction]
  split
  · rename_i d hfound
    obtain ⟨n, _, hgrid⟩ := List.exists_of_findSome?_eq_some hfound
    exact bits_of_onGrid? hgrid
  · exact bits_exactFraction hzero hfinite

theorem digits_shortestFraction_ne_zero {bits : Nat} (hzero : bits ≠ 0)
    (hfinite : bits < infinityBits) : (shortestFraction bits).digits ≠ 0 := by
  intro hdigits
  have hbits := bits_shortestFraction hzero hfinite
  rw [DecimalFraction.bits, if_pos hdigits] at hbits
  exact hzero hbits.symm

end Multimethod.Decimal
