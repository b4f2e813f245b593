import Mathlib.Algebra.Order.Field.Power
import Mathlib.Algebra.Order.Floor.Semifield
import Mathlib.Data.Int.Log
import Mathlib.Data.Rat.Floor
import Mathlib.Tactic.FieldSimp
import Mathlib.Tactic.Linarith
import Mathlib.Tactic.NormNum
import Mathlib.Tactic.Positivity
import Mathlib.Tactic.Ring
import Multimethod.Decimal.Rounding

/-!
# The double nearest to a rational number

Rounding is computed on quotients of natural numbers. Here it is a function of the rational number
alone, so quotients of the same value round to the same double.

* `nearestBits_eq` — rounding a quotient rounds its value.
* `nearest_significand` — the value of a finite double rounds to that double.
* `nearest_eq_infinityBits`, `nearest_eq_zero` — far above and far below all doubles.
-/

namespace Multimethod.Decimal

/-- The whole number nearest to a rational one; a half goes to the even neighbour. -/
def halfEven (q : ℚ) : Nat :=
  let floor := ⌊q⌋₊
  if q - floor < 1 / 2 ∨ (q - floor = 1 / 2 ∧ floor % 2 = 0) then floor else floor + 1

/-- The power of two by which the doubles about a positive number are spaced. -/
def spacing (q : ℚ) : Int := max (Int.log 2 q - 52) (-1074)

/-- The bits of the double nearest to a number that is not negative. -/
def nearest (q : ℚ) : Nat :=
  if q = 0 then 0
  else min infinityBits ((spacing q + 1074).toNat * binadeSize + halfEven (q / 2 ^ spacing q))

/-! ## Quotients -/

theorem powerAtMost_iff {base : Nat} (hbase : 0 < base) (e : Int) (num : Nat) {den : Nat}
    (hden : 0 < den) :
    powerAtMost base e num den = true ↔ (base : ℚ) ^ e ≤ num / den := by
  have hden' : (0 : ℚ) < den := by exact_mod_cast hden
  have hbase' : (0 : ℚ) < base := by exact_mod_cast hbase
  rw [le_div_iff₀ hden', powerAtMost]
  split
  · obtain ⟨k, rfl⟩ := Int.eq_ofNat_of_zero_le ‹0 ≤ e›
    rw [decide_eq_true_eq, Int.toNat_natCast, zpow_natCast, mul_comm]
    exact_mod_cast Iff.rfl
  · obtain ⟨k, rfl⟩ : ∃ k : Nat, e = -k := ⟨(-e).toNat, by omega⟩
    rw [decide_eq_true_eq, neg_neg, Int.toNat_natCast, zpow_neg, zpow_natCast,
      inv_mul_le_iff₀ (pow_pos hbase' k), mul_comm]
    exact_mod_cast Iff.rfl

theorem scaled_den_pos (n : Nat) {base : Nat} (hbase : 0 < base) (e : Int) :
    0 < (scaled n base e).2 := by
  unfold scaled
  split
  · exact Nat.one_pos
  · exact Nat.pow_pos hbase

theorem scaled_value (n base : Nat) (e : Int) :
    ((scaled n base e).1 : ℚ) / (scaled n base e).2 = n * (base : ℚ) ^ e := by
  unfold scaled
  split
  · obtain ⟨k, rfl⟩ := Int.eq_ofNat_of_zero_le ‹0 ≤ e›
    simp
  · obtain ⟨k, rfl⟩ : ∃ k : Nat, e = -k := ⟨(-e).toNat, by omega⟩
    simp [div_eq_mul_inv]

/-- A quotient lies between the powers of two about the difference of the logarithms. -/
theorem quotient_bounds {num den : Nat} (hnum : 0 < num) (hden : 0 < den) :
    (2 : ℚ) ^ ((num.log2 : Int) - den.log2 - 1) < num / den ∧
      (num : ℚ) / den < 2 ^ ((num.log2 : Int) - den.log2 + 1) := by
  have hden' : (0 : ℚ) < den := by exact_mod_cast hden
  have hnumLow : (2 : ℚ) ^ num.log2 ≤ num := by exact_mod_cast Nat.log2_self_le hnum.ne'
  have hnumHigh : (num : ℚ) < 2 ^ (num.log2 + 1) := by exact_mod_cast Nat.lt_log2_self
  have hdenLow : (2 : ℚ) ^ den.log2 ≤ den := by exact_mod_cast Nat.log2_self_le hden.ne'
  have hdenHigh : (den : ℚ) < 2 ^ (den.log2 + 1) := by exact_mod_cast Nat.lt_log2_self
  constructor
  · have hpower : (2 : ℚ) ^ ((num.log2 : Int) - den.log2 - 1) =
        2 ^ num.log2 / 2 ^ (den.log2 + 1) := by
      rw [sub_sub, zpow_sub₀ two_ne_zero, ← Nat.cast_succ, zpow_natCast, zpow_natCast]
    rw [hpower, div_lt_div_iff₀ (by positivity) hden']
    calc (2 : ℚ) ^ num.log2 * den < 2 ^ num.log2 * 2 ^ (den.log2 + 1) := by gcongr
      _ ≤ num * 2 ^ (den.log2 + 1) := by gcongr
  · have hpower : (2 : ℚ) ^ ((num.log2 : Int) - den.log2 + 1) =
        2 ^ (num.log2 + 1) / 2 ^ den.log2 := by
      rw [sub_add_eq_add_sub, zpow_sub₀ two_ne_zero, ← Nat.cast_succ, zpow_natCast, zpow_natCast]
    rw [hpower, div_lt_div_iff₀ hden' (by positivity)]
    calc (num : ℚ) * 2 ^ den.log2 < 2 ^ (num.log2 + 1) * 2 ^ den.log2 := by gcongr
      _ ≤ 2 ^ (num.log2 + 1) * den := by gcongr

theorem log_eq_of_bounds {q : ℚ} (hq : 0 < q) {e : Int} (hlow : (2 : ℚ) ^ e ≤ q)
    (hhigh : q < 2 ^ (e + 1)) : Int.log 2 q = e := by
  have hle : e ≤ Int.log 2 q := (Int.zpow_le_iff_le_log Nat.one_lt_two hq).1 (by exact_mod_cast hlow)
  have hlt : Int.log 2 q < e + 1 :=
    (Int.lt_zpow_iff_log_lt Nat.one_lt_two hq).1 (by exact_mod_cast hhigh)
  omega

theorem spacingExponent_eq {num den : Nat} (hnum : 0 < num) (hden : 0 < den) :
    spacingExponent num den = spacing (num / den) := by
  have hq : (0 : ℚ) < num / den := by positivity
  obtain ⟨hlow, hhigh⟩ := quotient_bounds hnum hden
  dsimp only [spacingExponent, spacing]
  congr 2
  split
  · rename_i hguess
    rw [powerAtMost_iff Nat.two_pos _ _ hden] at hguess
    exact (log_eq_of_bounds hq (by exact_mod_cast hguess) hhigh).symm
  · rename_i hguess
    rw [powerAtMost_iff Nat.two_pos _ _ hden, not_le] at hguess
    exact (log_eq_of_bounds hq hlow.le (by rw [sub_add_cancel]; exact_mod_cast hguess)).symm

theorem roundHalfEven_eq (num : Nat) {den : Nat} (hden : 0 < den) :
    roundHalfEven num den = halfEven (num / den) := by
  have hden' : (0 : ℚ) < den := by exact_mod_cast hden
  have hrest : (num : ℚ) / den - (num / den : Nat) = (num % den : Nat) / den := by
    have hsplit : (num : ℚ) = den * (num / den : Nat) + (num % den : Nat) := by
      exact_mod_cast (Nat.div_add_mod num den).symm
    field_simp
    linarith
  have hless : ((num % den : Nat) : ℚ) / den < 1 / 2 ↔ 2 * (num % den) < den := by
    rw [div_lt_div_iff₀ hden' two_pos, one_mul, mul_comm]
    exact_mod_cast Iff.rfl
  have hhalf : ((num % den : Nat) : ℚ) / den = 1 / 2 ↔ 2 * (num % den) = den := by
    rw [div_eq_div_iff hden'.ne' two_ne_zero, one_mul, mul_comm]
    exact_mod_cast Iff.rfl
  simp only [roundHalfEven, halfEven, Nat.floor_div_eq_div, hrest, hless, hhalf]

/-- **Rounding a quotient rounds its value.** -/
theorem nearestBits_eq (num : Nat) {den : Nat} (hden : 0 < den) :
    nearestBits num den = nearest (num / den) := by
  have hden' : (den : ℚ) ≠ 0 := by exact_mod_cast hden.ne'
  by_cases hnum : num = 0
  · simp [nearestBits, nearest, hnum]
  have hq : (num : ℚ) / den ≠ 0 := div_ne_zero (by exact_mod_cast hnum) hden'
  simp only [nearestBits, nearest, hnum, hq, if_false,
    spacingExponent_eq (Nat.pos_of_ne_zero hnum) hden]
  congr 2
  generalize spacing (num / den) = u
  split
  · obtain ⟨k, rfl⟩ := Int.eq_ofNat_of_zero_le ‹0 ≤ u›
    have hscaled : 0 < den * Nat.pow 2 k := Nat.mul_pos hden (Nat.pow_pos Nat.two_pos)
    rw [Int.toNat_natCast, roundHalfEven_eq _ hscaled, div_div]
    simp
  · obtain ⟨k, rfl⟩ : ∃ k : Nat, u = -k := ⟨(-u).toNat, by omega⟩
    rw [roundHalfEven_eq _ hden, zpow_neg, div_inv_eq_mul, div_mul_eq_mul_div]
    simp

/-! ## Values of doubles -/

@[simp] theorem halfEven_natCast (n : Nat) : halfEven n = n := by
  simp [halfEven]

theorem halfEven_eq_zero {q : ℚ} (hless : q < 1 / 2) : halfEven q = 0 := by
  have hfloor : ⌊q⌋₊ = 0 := Nat.floor_eq_zero.2 (by linarith)
  simp only [halfEven, hfloor, Nat.cast_zero, sub_zero, hless, true_or, if_true]

theorem log_natCast_mul_zpow {n k : Nat} (hlow : 2 ^ k ≤ n) (hhigh : n < 2 ^ (k + 1)) (e : Int) :
    Int.log 2 ((n : ℚ) * 2 ^ e) = k + e := by
  have hn : (0 : ℚ) < n := by exact_mod_cast (Nat.pow_pos Nat.two_pos).trans_le hlow
  have hlow' : (2 : ℚ) ^ k ≤ n := by exact_mod_cast hlow
  have hhigh' : (n : ℚ) < 2 ^ (k + 1) := by exact_mod_cast hhigh
  refine log_eq_of_bounds (by positivity) ?_ ?_
  · rw [zpow_add₀ two_ne_zero, zpow_natCast]
    gcongr
  · rw [add_right_comm, zpow_add₀ two_ne_zero, ← Nat.cast_succ, zpow_natCast]
    gcongr

theorem nearest_of_spacing {n : Nat} {e : Int} (hn : n ≠ 0) (hspacing : spacing (n * 2 ^ e) = e) :
    nearest (n * 2 ^ e) = min infinityBits ((e + 1074).toNat * binadeSize + n) := by
  have hpower : (2 : ℚ) ^ e ≠ 0 := zpow_ne_zero e two_ne_zero
  have hq : (n : ℚ) * 2 ^ e ≠ 0 := mul_ne_zero (by exact_mod_cast hn) hpower
  rw [nearest, if_neg hq, hspacing, mul_div_cancel_right₀ _ hpower, halfEven_natCast]

/-- **The value of a finite double rounds to that double.** -/
theorem nearest_significand {bits : Nat} (hzero : bits ≠ 0) (hfinite : bits < infinityBits) :
    nearest (significand bits * 2 ^ binaryExponent bits) = bits := by
  have hbinade : binadeSize = 2 ^ 52 := by decide
  have hinfinity : infinityBits = 2047 * 2 ^ 52 := by decide
  have hsplit := Nat.div_add_mod bits binadeSize
  have hrest : bits % binadeSize < binadeSize := Nat.mod_lt _ (by decide)
  rw [hbinade] at hsplit hrest
  unfold significand binaryExponent
  rw [hbinade]
  split
  · -- No implicit bit: the number is below the smallest one with the full significand.
    have hless : bits < 2 ^ 52 := by omega
    have hlow : Int.log 2 ((bits : ℚ) * 2 ^ (-1074 : Int)) - 52 ≤ -1074 := by
      have hpos : (0 : ℚ) < bits * 2 ^ (-1074 : Int) := by positivity
      have hhigh : (bits : ℚ) * 2 ^ (-1074 : Int) < 2 ^ (-1022 : Int) := by
        have hless' : (bits : ℚ) < 2 ^ (52 : Int) := by exact_mod_cast hless
        rw [show (-1022 : Int) = 52 + -1074 by norm_num, zpow_add₀ two_ne_zero]
        gcongr
      have := (Int.lt_zpow_iff_log_lt Nat.one_lt_two hpos).1 (by exact_mod_cast hhigh)
      omega
    rw [Nat.mod_eq_of_lt hless, nearest_of_spacing hzero (max_eq_right hlow)]
    simp only [Int.reduceNeg, neg_add_cancel, Int.toNat_zero, Nat.zero_mul, Nat.zero_add]
    omega
  · have hlog := log_natCast_mul_zpow (n := 2 ^ 52 + bits % 2 ^ 52) (k := 52) (by omega) (by omega)
      ((bits / 2 ^ 52 : Nat) - 1075)
    have hspacing : spacing ((2 ^ 52 + bits % 2 ^ 52 : Nat) * 2 ^ ((bits / 2 ^ 52 : Nat) - 1075 : Int)) =
        (bits / 2 ^ 52 : Nat) - 1075 := by
      rw [spacing, hlog]
      omega
    rw [nearest_of_spacing (by omega) hspacing, hbinade, hinfinity]
    omega

theorem nearest_eq_infinityBits {q : ℚ} (hlarge : 2 ^ 1025 ≤ q) : nearest q = infinityBits := by
  have hq : 0 < q := lt_of_lt_of_le (by positivity) hlarge
  have hlog : 1025 ≤ Int.log 2 q :=
    (Int.zpow_le_iff_le_log Nat.one_lt_two hq).1 (by exact_mod_cast hlarge)
  have hspacing : 973 ≤ spacing q := le_max_of_le_left (by omega)
  have hbits : infinityBits ≤ (spacing q + 1074).toNat * binadeSize := by
    calc infinityBits = 2047 * binadeSize := by decide
      _ ≤ (spacing q + 1074).toNat * binadeSize := Nat.mul_le_mul_right _ (by omega)
  rw [nearest, if_neg hq.ne']
  omega

theorem nearest_eq_zero {q : ℚ} (hq : 0 ≤ q) (hsmall : q < 2 ^ (-1075 : Int)) : nearest q = 0 := by
  rcases hq.eq_or_lt with rfl | hpos
  · simp [nearest]
  have hlog : Int.log 2 q < -1075 :=
    (Int.lt_zpow_iff_log_lt Nat.one_lt_two hpos).1 (by exact_mod_cast hsmall)
  have hspacing : spacing q = -1074 := max_eq_right (by omega)
  have hhalf : q / 2 ^ (-1074 : Int) < 1 / 2 := by
    rw [div_lt_iff₀ (by positivity)]
    calc q < 2 ^ (-1075 : Int) := hsmall
      _ = 1 / 2 * 2 ^ (-1074 : Int) := by
        rw [show (-1075 : Int) = -1 + -1074 by norm_num, zpow_add₀ two_ne_zero]
        norm_num
  rw [nearest, if_neg hpos.ne', hspacing, halfEven_eq_zero hhalf]
  rfl

end Multimethod.Decimal
