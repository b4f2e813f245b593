import Mathlib.Data.List.TakeWhile
import Multimethod.Proofs.Decimal.Fraction

/-!
# Numerals

The texts that finite doubles are written as: digits with a point among them, a power of ten after
them, or both. `Numeral` says which decimal fraction such a text stands for.

* `integer?_integerText`, `int64?_integerText` — a written whole number reads as itself.
* `Numeral.fraction?_eq` — a numeral reads as its fraction.
* `numeral_positional`, `numeral_scientific` — either way of writing digits makes a numeral.
-/

namespace Multimethod.Decimal

/-! ## Rows of digits -/

theorem digitsValue_append (front back : List Char) :
    digitsValue (front ++ back) = digitsValue front * 10 ^ back.length + digitsValue back := by
  induction back using List.reverseRecOn with
  | nil => simp [digitsValue]
  | append_singleton back c ih =>
    rw [← List.append_assoc, digitsValue_append_singleton, digitsValue_append_singleton, ih,
      List.length_append, List.length_singleton, Nat.pow_succ]
    ring

@[simp] theorem digitsValue_zeros (n : Nat) : digitsValue (List.replicate n '0') = 0 := by
  induction n with
  | zero => rfl
  | succ n ih => rw [List.replicate_succ', digitsValue_append_singleton, ih]; rfl

@[simp] theorem digitsValue_zero_cons (cs : List Char) :
    digitsValue ('0' :: cs) = digitsValue cs := rfl

theorem exists_zeros_at_end (cs : List Char) :
    ∃ n, cs = (cs.reverse.dropWhile (· = '0')).reverse ++ List.replicate n '0' := by
  refine ⟨(cs.reverse.takeWhile (· = '0')).length, ?_⟩
  have hzeros : cs.reverse.takeWhile (· = '0') =
      List.replicate (cs.reverse.takeWhile (· = '0')).length '0' :=
    List.eq_replicate_of_mem fun c hc => by simpa using List.mem_takeWhile_imp hc
  rw [← List.reverse_replicate, ← hzeros, ← List.reverse_append, List.takeWhile_append_dropWhile,
    List.reverse_reverse]

/-- The digits of a fraction that are written, and the place of the point, give the fraction back. -/
theorem significantDigits_spec {d : DecimalFraction} (hd : d.digits ≠ 0) {digits : List Char}
    {point : Int} (hsignificant : significantDigits d = (digits, point)) :
    digits ≠ [] ∧ digits.all Char.isDigit = true ∧
      d.value = digitsValue digits * 10 ^ (point - digits.length) := by
  obtain ⟨rfl, rfl⟩ := Prod.mk.inj hsignificant
  obtain ⟨zeros, hzeros⟩ := exists_zeros_at_end (decimalDigits d.digits)
  set front := ((decimalDigits d.digits).reverse.dropWhile (· = '0')).reverse
  have hvalue : d.digits = digitsValue front * 10 ^ zeros := by
    rw [← digitsValue_decimalDigits d.digits, hzeros, digitsValue_append, digitsValue_zeros,
      List.length_replicate, Nat.add_zero]
  refine ⟨?_, ?_, ?_⟩
  · intro hnil
    rw [hnil] at hvalue
    simp [digitsValue, hd] at hvalue
  · have hall := all_isDigit_decimalDigits d.digits
    rw [hzeros, List.all_append, Bool.and_eq_true] at hall
    exact hall.1
  · have hlength : (decimalDigits d.digits).length = front.length + zeros := by
      rw [hzeros, List.length_append, List.length_replicate]
    have hplace : ((decimalDigits d.digits).length + d.exponent - front.length : Int) =
        zeros + d.exponent := by
      omega
    rw [hplace, DecimalFraction.value, zpow_add₀ (by norm_num), hvalue, zpow_natCast]
    push_cast
    ring

/-! ## Whole numbers -/

theorem splitSign_of_isDigit {c : Char} (hc : c.isDigit = true) (rest : List Char) :
    splitSign (c :: rest) = (false, c :: rest) := by
  unfold splitSign
  split
  · simp_all
  · simp_all
  · rfl

theorem decimalDigits_eq_cons (n : Nat) :
    ∃ c rest, decimalDigits n = c :: rest ∧ c.isDigit = true := by
  obtain ⟨c, rest, heq⟩ := List.exists_cons_of_ne_nil (decimalDigits_ne_nil n)
  have hall := all_isDigit_decimalDigits n
  rw [heq, List.all_cons, Bool.and_eq_true] at hall
  exact ⟨c, rest, heq, hall.1⟩

theorem integerText_eq_cons (n : Int) :
    ∃ c rest, integerText n = c :: rest ∧ (c = '-' ∨ c.isDigit = true) := by
  cases n with
  | ofNat m =>
    obtain ⟨c, rest, heq, hc⟩ := decimalDigits_eq_cons m
    exact ⟨c, rest, heq, .inr hc⟩
  | negSucc m => exact ⟨'-', decimalDigits (m + 1), rfl, .inl rfl⟩

/-- **A written whole number reads as itself.** -/
theorem integer?_integerText (n : Int) : integer? (integerText n) = some n := by
  cases n with
  | ofNat m =>
    obtain ⟨c, rest, heq, hc⟩ := decimalDigits_eq_cons m
    have hsign : splitSign (decimalDigits m) = (false, decimalDigits m) := by
      rw [heq, splitSign_of_isDigit hc]
    simp [integer?, integerText, hsign, decimalDigits_ne_nil, all_isDigit_decimalDigits,
      digitsValue_decimalDigits]
  | negSucc m =>
    simp [integer?, integerText, splitSign, decimalDigits_ne_nil, all_isDigit_decimalDigits,
      digitsValue_decimalDigits, Int.negSucc_eq]

theorem int64?_integerText (n : Int64) : int64? (integerText n.toInt) = some n := by
  have hlow := n.le_toInt
  have hhigh := n.toInt_le
  simp only [int64?, integer?_integerText]
  rw [if_pos ⟨hlow, hhigh⟩, Int64.ofInt_toInt]

/-- A text with a character besides digits after its sign is no whole number. -/
theorem integer?_eq_none {cs : List Char} (hdigits : (splitSign cs).2.all Char.isDigit = false) :
    integer? cs = none := by
  simp [integer?, hdigits]

/-! ## Numerals -/

/-- The text writes the decimal fraction with a point, a power of ten or both. -/
inductive Numeral : List Char → DecimalFraction → Prop
  | point {whole decimals : List Char} (hwhole : whole ≠ [])
    (hdigits : (whole ++ decimals).all Char.isDigit = true) :
    Numeral (whole ++ '.' :: decimals) ⟨digitsValue (whole ++ decimals), -decimals.length⟩
  | power {whole : List Char} (n : Int) (hwhole : whole ≠ [])
    (hdigits : whole.all Char.isDigit = true) :
    Numeral (whole ++ 'e' :: integerText n) ⟨digitsValue whole, n⟩
  | pointPower {whole decimals : List Char} (n : Int) (hwhole : whole ≠ [])
    (hdigits : (whole ++ decimals).all Char.isDigit = true) :
    Numeral (whole ++ '.' :: (decimals ++ 'e' :: integerText n))
      ⟨digitsValue (whole ++ decimals), n - decimals.length⟩

theorem span_isDigit {digits : List Char} (hdigits : digits.all Char.isDigit = true) {c : Char}
    (hc : c.isDigit = false) (rest : List Char) :
    (digits ++ c :: rest).takeWhile Char.isDigit = digits ∧
      (digits ++ c :: rest).dropWhile Char.isDigit = c :: rest := by
  rw [List.takeWhile_append_of_pos (List.all_eq_true.1 hdigits),
    List.dropWhile_append_of_pos (List.all_eq_true.1 hdigits)]
  simp [hc]

theorem span_isDigit_self {digits : List Char} (hdigits : digits.all Char.isDigit = true) :
    digits.takeWhile Char.isDigit = digits ∧ digits.dropWhile Char.isDigit = [] := by
  rw [List.takeWhile_eq_self_iff, List.dropWhile_eq_nil_iff]
  exact ⟨List.all_eq_true.1 hdigits, List.all_eq_true.1 hdigits⟩

namespace Numeral

variable {cs : List Char} {d : DecimalFraction}

/-- **A numeral reads as its fraction.** -/
theorem fraction?_eq (hnumeral : Numeral cs d) : fraction? cs = some d := by
  cases hnumeral with
  | @point whole decimals hwhole hdigits =>
    rw [List.all_append, Bool.and_eq_true] at hdigits
    obtain ⟨htake, hdrop⟩ := span_isDigit hdigits.1 (by decide : '.'.isDigit = false) decimals
    obtain ⟨htake', hdrop'⟩ := span_isDigit_self hdigits.2
    simp [fraction?, exponent?, htake, hdrop, htake', hdrop', hwhole]
  | @power whole n hwhole hdigits =>
    obtain ⟨htake, hdrop⟩ := span_isDigit hdigits (by decide : 'e'.isDigit = false) (integerText n)
    simp [fraction?, exponent?, htake, hdrop, hwhole, integer?_integerText]
  | @pointPower whole decimals n hwhole hdigits =>
    rw [List.all_append, Bool.and_eq_true] at hdigits
    obtain ⟨htake, hdrop⟩ := span_isDigit hdigits.1 (by decide : '.'.isDigit = false)
      (decimals ++ 'e' :: integerText n)
    obtain ⟨htake', hdrop'⟩ := span_isDigit hdigits.2 (by decide : 'e'.isDigit = false)
      (integerText n)
    simp [fraction?, exponent?, htake, hdrop, htake', hdrop', hwhole, integer?_integerText]

theorem exists_isDigit (hnumeral : Numeral cs d) : ∃ c rest, cs = c :: rest ∧ c.isDigit = true := by
  have hfront {whole : List Char} (hwhole : whole ≠ []) (hdigits : whole.all Char.isDigit = true)
      (others : List Char) : ∃ c rest, whole ++ others = c :: rest ∧ c.isDigit = true := by
    obtain ⟨c, rest, rfl⟩ := List.exists_cons_of_ne_nil hwhole
    rw [List.all_cons, Bool.and_eq_true] at hdigits
    exact ⟨c, rest ++ others, rfl, hdigits.1⟩
  cases hnumeral with
  | point hwhole hdigits =>
    rw [List.all_append, Bool.and_eq_true] at hdigits
    exact hfront hwhole hdigits.1 _
  | power n hwhole hdigits => exact hfront hwhole hdigits _
  | pointPower n hwhole hdigits =>
    rw [List.all_append, Bool.and_eq_true] at hdigits
    exact hfront hwhole hdigits.1 _

theorem not_all_isDigit (hnumeral : Numeral cs d) : cs.all Char.isDigit = false := by
  cases hnumeral <;> simp

end Numeral

/-! ## Ways of writing -/

theorem numeral_positional {digits : List Char} (hdigits : digits.all Char.isDigit = true)
    (point : Int) : ∃ d, Numeral (positional digits point) d ∧
      d.value = digitsValue digits * 10 ^ (point - digits.length) := by
  unfold positional
  split
  · refine ⟨_, Numeral.point (List.cons_ne_nil '0' []) ?_, ?_⟩
    · simp [hdigits]
    · have hplace : (-((-point).toNat + digits.length : Nat) : Int) = point - digits.length := by
        omega
      rw [DecimalFraction.value, List.singleton_append, digitsValue_zero_cons, digitsValue_append,
        digitsValue_zeros, Nat.zero_mul, Nat.zero_add, List.length_append, List.length_replicate,
        hplace]
  split
  · rename_i hpositive hlong
    obtain ⟨zeros, hzeros⟩ := Nat.exists_eq_add_of_le hlong
    have hplace : (point - digits.length : Int) = zeros := by omega
    rw [hzeros, Nat.add_sub_cancel_left, hplace]
    refine ⟨_, @Numeral.point (digits ++ List.replicate zeros '0') ['0'] ?_ ?_, ?_⟩
    · rw [Ne, List.append_eq_nil_iff, not_and]
      rintro rfl hnone
      rw [List.length_nil, Nat.zero_add] at hzeros
      rw [List.replicate_eq_nil_iff] at hnone
      omega
    · simp [hdigits]
    · have htimes : digitsValue (digits ++ List.replicate zeros '0' ++ ['0']) =
          10 * (digitsValue digits * 10 ^ zeros) := by
        rw [digitsValue_append_singleton, digitsValue_append, digitsValue_zeros,
          List.length_replicate]
        rfl
      rw [DecimalFraction.value, htimes, List.length_singleton, Nat.cast_one, zpow_neg_one,
        zpow_natCast]
      push_cast
      ring
  · rename_i hpositive hshort
    have hplace : (-((digits.drop point.toNat).length : Nat) : Int) = point - digits.length := by
      rw [List.length_drop]
      omega
    refine ⟨_, Numeral.point ?_ ?_, ?_⟩
    · rw [Ne, List.take_eq_nil_iff, not_or]
      refine ⟨by omega, ?_⟩
      rintro rfl
      exact hshort (Nat.zero_le _)
    · rw [List.take_append_drop, hdigits]
    · rw [DecimalFraction.value, List.take_append_drop, hplace]

theorem numeral_scientific {digits : List Char} (hdigits : digits.all Char.isDigit = true)
    (hne : digits ≠ []) (point : Int) : ∃ d, Numeral (scientific digits point) d ∧
      d.value = digitsValue digits * 10 ^ (point - digits.length) := by
  match digits, hne with
  | [c], _ =>
    exact ⟨_, Numeral.power (point - 1) (List.cons_ne_nil c []) hdigits, rfl⟩
  | c :: c' :: others, _ =>
    refine ⟨_, @Numeral.pointPower [c] (c' :: others) (point - 1) (List.cons_ne_nil c []) hdigits, ?_⟩
    have hplace : (point - 1 - (c' :: others).length : Int) = point - (c :: c' :: others).length := by
      simp only [List.length_cons]
      omega
    rw [DecimalFraction.value, hplace, List.singleton_append]

/-! ## Characters of numbers -/

/-- Does the character occur in written numbers? -/
def isNumberCharacter (c : Char) : Bool :=
  c.isDigit || ['-', '.', 'e', 'i', 'n', 'f'].contains c

theorem all_isNumberCharacter_of_isDigit {cs : List Char} (hdigits : cs.all Char.isDigit = true) :
    cs.all isNumberCharacter = true := by
  rw [List.all_eq_true] at hdigits ⊢
  intro c hc
  rw [isNumberCharacter, hdigits c hc, Bool.true_or]

theorem all_isNumberCharacter_integerText (n : Int) :
    (integerText n).all isNumberCharacter = true := by
  have hdigits (m : Nat) : (decimalDigits m).all isNumberCharacter = true :=
    all_isNumberCharacter_of_isDigit (all_isDigit_decimalDigits m)
  cases n with
  | ofNat m => exact hdigits m
  | negSucc m => exact hdigits (m + 1)

theorem Numeral.all_isNumberCharacter {cs : List Char} {d : DecimalFraction}
    (hnumeral : Numeral cs d) : cs.all isNumberCharacter = true := by
  have hpoint : isNumberCharacter '.' = true := rfl
  have hpower : isNumberCharacter 'e' = true := rfl
  cases hnumeral with
  | point _ hdigits =>
    have hall := all_isNumberCharacter_of_isDigit hdigits
    rw [List.all_append] at hall
    rw [List.all_append, List.all_cons, hpoint, Bool.true_and, hall]
  | power n _ hdigits =>
    rw [List.all_append, List.all_cons, hpower, all_isNumberCharacter_of_isDigit hdigits,
      all_isNumberCharacter_integerText]
    rfl
  | pointPower n _ hdigits =>
    have hall := all_isNumberCharacter_of_isDigit hdigits
    rw [List.all_append] at hall
    rw [List.all_append, List.all_cons, List.all_append, List.all_cons, hpoint, hpower,
      all_isNumberCharacter_integerText, Bool.true_and, Bool.true_and, Bool.and_true, hall]

end Multimethod.Decimal
