import Mathlib.Algebra.Ring.Nat
import Mathlib.Data.List.Induction
import Multimethod.Text.Hex

/-!
# Reading hexadecimal digits

* `hexNumberFrom?_fixedHex` — a number with enough digits reads as itself.
* `charOfHex?_fixedHex`, `charOfHex?_shortHex` — a character's code point reads as the character.
* `fixedHex_of_charOfHex?` — small digits are the ones that are written for the character they read as.
* `charOfHex?_eq_none_of_mem` — with a character that is no digit among its digits nothing is read.
-/

namespace Multimethod.Text

theorem hexValue?_hexDigit {d : Nat} (hd : d < 16) : hexValue? (hexDigit d) = some d := by
  have hall : ∀ d : Fin 16, hexValue? (hexDigit d.val) = some d.val := by decide
  exact hall ⟨d, hd⟩

theorem hexDigit_ne {c : Char} (hc : hexValue? c = none) (n : Nat) : hexDigit (n % 16) ≠ c := by
  intro heq
  have hvalue := hexValue?_hexDigit (Nat.mod_lt n (by decide : 0 < 16))
  rw [heq, hc] at hvalue
  cases hvalue

theorem hexNumberFrom?_append (start : Nat) (front back : List Char) :
    hexNumberFrom? start (front ++ back) =
      (hexNumberFrom? start front).bind (hexNumberFrom? · back) := by
  induction front generalizing start with
  | nil => rfl
  | cons c rest ih =>
    rw [List.cons_append, hexNumberFrom?, hexNumberFrom?]
    cases hexValue? c with
    | none => rfl
    | some d => exact ih _

theorem hexNumberFrom?_fixedHex (width start n : Nat) :
    hexNumberFrom? start (fixedHex width n) = some (16 ^ width * start + n % 16 ^ width) := by
  induction width generalizing n with
  | zero => simp [fixedHex, hexNumberFrom?, Nat.mod_one]
  | succ width ih =>
    have hdigit := hexValue?_hexDigit (Nat.mod_lt n (by decide : 0 < 16))
    rw [fixedHex, hexNumberFrom?_append, ih, Option.bind_some, hexNumberFrom?, hdigit]
    simp only [hexNumberFrom?, Option.some.injEq]
    rw [Nat.pow_succ, Nat.mul_comm (16 ^ width) 16, Nat.mod_mul]
    grind

theorem fixedHex_succ_eq_cons (width n : Nat) :
    ∃ m tail, fixedHex (width + 1) n = hexDigit (m % 16) :: tail := by
  induction width generalizing n with
  | zero => exact ⟨n, [], rfl⟩
  | succ width ih =>
    obtain ⟨m, tail, htail⟩ := ih (n / 16)
    exact ⟨m, tail ++ [hexDigit (n % 16)], by rw [fixedHex, htail, List.cons_append]⟩

theorem hexNumber?_hexDigit_cons (m : Nat) (tail : List Char) :
    hexNumber? (hexDigit (m % 16) :: tail) = hexNumberFrom? 0 (hexDigit (m % 16) :: tail) := by
  unfold hexNumber?
  split
  · rename_i rest heq
    exact absurd (List.cons.inj heq).1 (hexDigit_ne (by decide) m)
  · rfl

/-- The code point of a character, in enough digits, reads as the character. -/
theorem charOfHex?_fixedHex (width : Nat) {c : Char} (hc : c.toNat < 16 ^ (width + 1)) :
    charOfHex? (fixedHex (width + 1) c.toNat) = some c := by
  have hread := hexNumberFrom?_fixedHex (width + 1) 0 c.toNat
  rw [Nat.mul_zero, Nat.zero_add, Nat.mod_eq_of_lt hc] at hread
  obtain ⟨m, tail, hdigits⟩ := fixedHex_succ_eq_cons width c.toNat
  rw [charOfHex?, hdigits, hexNumber?_hexDigit_cons, ← hdigits, hread, Option.bind_some,
    scalar?_toNat]

theorem charOfHex?_fixedHex_four {c : Char} (hc : c.toNat ≤ 0xffff) :
    charOfHex? (fixedHex 4 c.toNat) = some c :=
  charOfHex?_fixedHex 3 (Nat.lt_succ_of_le hc)

theorem charOfHex?_fixedHex_six (c : Char) : charOfHex? (fixedHex 6 c.toNat) = some c := by
  have hvalid : c.toNat < 0xd800 ∨ 0xdfff < c.toNat ∧ c.toNat < 0x110000 := c.valid
  exact charOfHex?_fixedHex 5 (by omega)

/-! ## As few digits as there are -/

theorem hexNumberFrom?_shortHex (n : Nat) : hexNumberFrom? 0 (shortHex n) = some n := by
  fun_induction shortHex n with
  | case1 n hn => simp [hexNumberFrom?, hexValue?_hexDigit hn]
  | case2 n hn ih =>
    have hdigit := hexValue?_hexDigit (Nat.mod_lt n (by decide : 0 < 16))
    simp only [hexNumberFrom?_append, ih, Option.bind_some, hexNumberFrom?, hdigit,
      Nat.div_add_mod]

theorem shortHex_eq_cons (n : Nat) : ∃ m tail, shortHex n = hexDigit (m % 16) :: tail := by
  fun_induction shortHex n with
  | case1 n hn => exact ⟨n, [], by rw [Nat.mod_eq_of_lt hn]⟩
  | case2 n hn ih =>
    obtain ⟨m, tail, htail⟩ := ih
    exact ⟨m, tail ++ [hexDigit (n % 16)], by rw [htail, List.cons_append]⟩

/-- The code point of a character, in as few digits as there are, reads as the character. -/
theorem charOfHex?_shortHex (c : Char) : charOfHex? (shortHex c.toNat) = some c := by
  obtain ⟨m, tail, hdigits⟩ := shortHex_eq_cons c.toNat
  rw [charOfHex?, hdigits, hexNumber?_hexDigit_cons, ← hdigits, hexNumberFrom?_shortHex,
    Option.bind_some, scalar?_toNat]

/-! ## Small digits -/

/-- The digits of base sixteen in small letters. -/
def smallHexDigits : List Char := "0123456789abcdef".toList

theorem hexDigit_of_hexValue? {c : Char} (hc : c ∈ smallHexDigits) {d : Nat} (hd : hexValue? c = some d) :
    d < 16 ∧ hexDigit d = c := by
  have hall : smallHexDigits.all (fun c => (hexValue? c).all fun d => d < 16 && hexDigit d = c) := by decide
  have hdigit := List.all_eq_true.1 hall c hc
  rwa [hd, Option.all_some, Bool.and_eq_true, decide_eq_true_eq, decide_eq_true_eq] at hdigit

theorem fixedHex_of_hexNumberFrom? {digits : List Char} (hsmall : ∀ c ∈ digits, c ∈ smallHexDigits) {n : Nat}
    (h : hexNumberFrom? 0 digits = some n) : fixedHex digits.length n = digits := by
  induction digits using List.reverseRecOn generalizing n with
  | nil => rfl
  | append_singleton front c ih =>
    rw [hexNumberFrom?_append] at h
    obtain ⟨m, hfront, hlast⟩ := Option.bind_eq_some_iff.1 h
    rw [hexNumberFrom?] at hlast
    cases hc : hexValue? c with
    | none =>
      rw [hc] at hlast
      cases hlast
    | some d =>
      rw [hc] at hlast
      cases hlast
      obtain ⟨hd, hdigit⟩ := hexDigit_of_hexValue? (hsmall c (by simp)) hc
      have hm := ih (fun c' hc' => hsmall c' (List.mem_append_left _ hc')) hfront
      have hhigh : (16 * m + d) / 16 = m := by omega
      have hlow : (16 * m + d) % 16 = d := by omega
      rw [List.length_append, List.length_singleton, fixedHex, hhigh, hlow, hm, hdigit]

theorem toNat_of_scalar? {n : Nat} {c : Char} (h : scalar? n = some c) : c.toNat = n := by
  unfold scalar? at h
  split at h
  · rename_i hvalid
    cases h
    have hchar : Char.ofNat n = Char.ofNatAux n hvalid := dif_pos hvalid
    rw [hchar]
    rfl
  · cases h

theorem hexNumberFrom?_of_charOfHex? {digits : List Char} (hsmall : ∀ c ∈ digits, c ∈ smallHexDigits)
    {c : Char} (h : charOfHex? digits = some c) : hexNumberFrom? 0 digits = some c.toNat := by
  obtain ⟨n, hnumber, hscalar⟩ := Option.bind_eq_some_iff.1 h
  rw [toNat_of_scalar? hscalar]
  unfold hexNumber? at hnumber
  split at hnumber
  · -- a sign is no small digit
    exact absurd (hsmall '+' List.mem_cons_self) (by decide)
  · dsimp only at hnumber
    split at hnumber
    · cases hnumber
    · exact hnumber

/-- **Small digits are the ones that are written for the character they read as.** -/
theorem fixedHex_of_charOfHex? {digits : List Char} (hsmall : ∀ c ∈ digits, c ∈ smallHexDigits) {c : Char}
    (h : charOfHex? digits = some c) : fixedHex digits.length c.toNat = digits :=
  fixedHex_of_hexNumberFrom? hsmall (hexNumberFrom?_of_charOfHex? hsmall h)

/-- So many small digits reach only so far. -/
theorem toNat_lt_of_charOfHex? {digits : List Char} (hsmall : ∀ c ∈ digits, c ∈ smallHexDigits) {c : Char}
    (h : charOfHex? digits = some c) : c.toNat < 16 ^ digits.length := by
  have hread := hexNumberFrom?_of_charOfHex? hsmall h
  rw [← fixedHex_of_charOfHex? hsmall h, hexNumberFrom?_fixedHex, Nat.mul_zero, Nat.zero_add,
    Option.some.injEq] at hread
  have hlt := Nat.mod_lt c.toNat (Nat.pow_pos (n := digits.length) (by decide : 0 < 16))
  omega

theorem mem_smallHexDigits_of_fixedHex {width n : Nat} : ∀ d ∈ fixedHex width n, d ∈ smallHexDigits := by
  have hall : ∀ d : Fin 16, hexDigit d.val ∈ smallHexDigits := by decide
  induction width generalizing n with
  | zero => simp [fixedHex]
  | succ width ih =>
    intro d hd
    rcases List.mem_append.1 hd with hd | hd
    · exact ih d hd
    · rw [List.mem_singleton.1 hd]
      exact hall ⟨n % 16, Nat.mod_lt n (by decide)⟩

/-! ## Characters that are no digits -/

theorem hexNumberFrom?_eq_none_of_mem {c : Char} {cs : List Char} (hc : hexValue? c = none)
    (hmem : c ∈ cs) (start : Nat) : hexNumberFrom? start cs = none := by
  induction cs generalizing start with
  | nil => cases hmem
  | cons d rest ih =>
    rw [hexNumberFrom?]
    cases hd : hexValue? d with
    | none => rfl
    | some n =>
      obtain rfl | hrest := List.mem_cons.mp hmem
      · rw [hc] at hd
        cases hd
      · exact ih hrest _

/-- With a character among its digits that is neither a digit nor a sign a code point is none. -/
theorem charOfHex?_eq_none_of_mem {c : Char} {cs : List Char} (hc : hexValue? c = none)
    (hsign : c ≠ '+') (hmem : c ∈ cs) : charOfHex? cs = none := by
  have hnumber : hexNumber? cs = none := by
    unfold hexNumber?
    simp only [ite_eq_left_iff]
    intro _
    split
    · exact hexNumberFrom?_eq_none_of_mem hc ((List.mem_cons.mp hmem).resolve_left hsign) 0
    · exact hexNumberFrom?_eq_none_of_mem hc hmem 0
  rw [charOfHex?, hnumber, Option.bind_none]

end Multimethod.Text
