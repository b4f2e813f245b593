/-!
# Digits of natural numbers

Writing a natural number in decimal, with no leading zero, and reading a row of decimal digits.
`digitsValue_decimalDigits` says that reading undoes writing.
-/

namespace Multimethod.Decimal

/-- The decimal digit of a number below ten. -/
def decimalDigit (n : Nat) : Char := Char.ofNat (48 + n)

/-- The decimal digits of `n`, the most significant first. -/
def decimalDigits (n : Nat) : List Char :=
  if n < 10 then [decimalDigit n] else decimalDigits (n / 10) ++ [decimalDigit (n % 10)]
termination_by n
decreasing_by omega

def digitValue (c : Char) : Nat := c.toNat - 48

/-- The number that a row of decimal digits stands for. -/
def digitsValue (cs : List Char) : Nat :=
  cs.foldl (fun n c => 10 * n + digitValue c) 0

theorem isDigit_decimalDigit {n : Nat} (h : n < 10) : (decimalDigit n).isDigit = true := by
  have : ∀ m : Fin 10, (decimalDigit m.val).isDigit = true := by decide
  exact this ⟨n, h⟩

theorem digitValue_decimalDigit {n : Nat} (h : n < 10) : digitValue (decimalDigit n) = n := by
  have : ∀ m : Fin 10, digitValue (decimalDigit m.val) = m.val := by decide
  exact this ⟨n, h⟩

@[simp] theorem digitsValue_append_singleton (cs : List Char) (c : Char) :
    digitsValue (cs ++ [c]) = 10 * digitsValue cs + digitValue c := by
  simp [digitsValue]

/-- **Reading the digits of a number gives the number.** -/
theorem digitsValue_decimalDigits (n : Nat) : digitsValue (decimalDigits n) = n := by
  fun_induction decimalDigits n with
  | case1 n h => simp [digitsValue, digitValue_decimalDigit h]
  | case2 n h ih =>
    rw [digitsValue_append_singleton, ih, digitValue_decimalDigit (Nat.mod_lt n (by decide))]
    omega

theorem decimalDigits_ne_nil (n : Nat) : decimalDigits n ≠ [] := by
  rw [decimalDigits]
  split <;> simp

theorem all_isDigit_decimalDigits (n : Nat) : (decimalDigits n).all Char.isDigit = true := by
  fun_induction decimalDigits n with
  | case1 n h => simp [isDigit_decimalDigit h]
  | case2 n h ih => simp [ih, isDigit_decimalDigit (Nat.mod_lt n (by decide))]

end Multimethod.Decimal
