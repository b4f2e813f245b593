/-!
# Characters by code point in hexadecimal

Names and character literals spell out a code point in base sixteen. Writing uses lower-case
digits, of a fixed number or as few as needed; reading takes either case and one leading `+`.
-/

namespace Multimethod.Text

/-- The lower-case digit of a number below sixteen. -/
def hexDigit (n : Nat) : Char :=
  if n < 10 then Char.ofNat (48 + n) else Char.ofNat (87 + n)

/-- The last `width` hexadecimal digits of `n`. -/
def fixedHex : Nat → Nat → List Char
  | 0, _ => []
  | width + 1, n => fixedHex width (n / 16) ++ [hexDigit (n % 16)]

/-- As few hexadecimal digits of `n` as there are, at least one. -/
def shortHex (n : Nat) : List Char :=
  if n < 16 then [hexDigit n] else shortHex (n / 16) ++ [hexDigit (n % 16)]
termination_by n
decreasing_by omega

/-- The number a hexadecimal digit of either case stands for. -/
def hexValue? (c : Char) : Option Nat :=
  if '0' ≤ c ∧ c ≤ '9' then some (c.toNat - 48)
  else if 'a' ≤ c ∧ c ≤ 'f' then some (c.toNat - 87)
  else if 'A' ≤ c ∧ c ≤ 'F' then some (c.toNat - 55)
  else none

/-- The number written by hexadecimal digits, added to what was read before. -/
def hexNumberFrom? : Nat → List Char → Option Nat
  | n, [] => some n
  | n, c :: cs =>
    match hexValue? c with
    | some d => hexNumberFrom? (16 * n + d) cs
    | none => none

/-- The number written in hexadecimal: one or more digits after at most one `+`. -/
def hexNumber? (cs : List Char) : Option Nat :=
  let digits := match cs with
    | '+' :: rest => rest
    | _ => cs
  if digits.isEmpty then none else hexNumberFrom? 0 digits

/-- The character with this code point, unless it is a surrogate or past the last one. -/
def scalar? (n : Nat) : Option Char :=
  if n.isValidChar then some (Char.ofNat n) else none

/-- The character whose code point is written in hexadecimal. -/
def charOfHex? (cs : List Char) : Option Char :=
  (hexNumber? cs).bind scalar?

@[simp] theorem length_fixedHex (width n : Nat) : (fixedHex width n).length = width := by
  induction width generalizing n with
  | zero => rfl
  | succ width ih => simp [fixedHex, ih]

@[simp] theorem scalar?_toNat (c : Char) : scalar? c.toNat = some c := by
  have h : c.toNat.isValidChar := c.valid
  simp [scalar?, h]

end Multimethod.Text
