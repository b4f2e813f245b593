import Multimethod.Decimal.Digits
import Multimethod.Decimal.Rounding

/-!
# Notation of numbers

Reading takes `[sign] digits`, for whole numbers, and `[sign] digits [. digits] [e [sign] digits]`
besides the words `inf`, `infinity` and `nan`, for doubles. Writing gives a double the fewest
digits that read back to it, positional from `0.0001` up to below `1e16` and scientific elsewhere.
-/

namespace Multimethod.Decimal

/-- A decimal fraction that is not negative: `digits · 10 ^ exponent`. -/
structure DecimalFraction where
  digits : Nat
  exponent : Int
  deriving DecidableEq, Repr

/-- The bits of the double nearest to a decimal fraction. Exponents that lie beyond every double
are settled without computing the power. -/
def DecimalFraction.bits (d : DecimalFraction) : Nat :=
  if d.digits = 0 then 0
  else if 400 < d.exponent then infinityBits
  else if d.exponent < -(400 + (d.digits.log2 : Int)) then 0
  else
    let quotient := scaled d.digits 10 d.exponent
    nearestBits quotient.1 quotient.2

/-! ## Reading -/

/-- A sign, if there is one, and what follows it. -/
def splitSign : List Char → Bool × List Char
  | '-' :: rest => (true, rest)
  | '+' :: rest => (false, rest)
  | cs => (false, cs)

/-- The whole number written by an optional sign and digits. -/
def integer? (cs : List Char) : Option Int :=
  let (negative, digits) := splitSign cs
  if digits.isEmpty || !digits.all Char.isDigit then none
  else if negative then some (-(digitsValue digits : Int))
  else some (digitsValue digits)

/-- The whole number written, if sixty-four bits hold it. -/
def int64? (cs : List Char) : Option Int64 :=
  match integer? cs with
  | some n => if Int64.minValue.toInt ≤ n ∧ n ≤ Int64.maxValue.toInt then some (Int64.ofInt n) else none
  | none => none

/-- The exponent that follows the mantissa; none stands for zero. -/
def exponent? : List Char → Option Int
  | [] => some 0
  | c :: rest => if c = 'e' ∨ c = 'E' then integer? rest else none

/-- The decimal fraction written by digits, of which some stand on either side of a point, and an
exponent. -/
def fraction? (cs : List Char) : Option DecimalFraction :=
  let whole := cs.takeWhile Char.isDigit
  let afterWhole := cs.dropWhile Char.isDigit
  let (decimals, afterDecimals) := match afterWhole with
    | '.' :: rest => (rest.takeWhile Char.isDigit, rest.dropWhile Char.isDigit)
    | _ => ([], afterWhole)
  if whole.isEmpty && decimals.isEmpty then none
  else match exponent? afterDecimals with
    | some e => some ⟨digitsValue (whole ++ decimals), e - decimals.length⟩
    | none => none

/-- The bits of the number written without a sign. -/
def magnitude? (cs : List Char) : Option Nat :=
  let word := cs.map Char.toLower
  if word = "inf".toList ∨ word = "infinity".toList then some infinityBits
  else if word = "nan".toList then some nanBits
  else (fraction? cs).map DecimalFraction.bits

def double? (cs : List Char) : Option Float :=
  let (negative, body) := splitSign cs
  (magnitude? body).map (signedDouble negative)

/-! ## Writing -/

/-- The power of ten of the first digit of a positive quotient. -/
def leadingPower (num den : Nat) : Int :=
  let guess := ((num.log2 : Int) - den.log2) * 30103 / 100000
  if powerAtMost 10 (guess + 1) num den then guess + 1
  else if powerAtMost 10 guess num den then guess
  else guess - 1

/-- Of the two decimal fractions with this unit about a quotient, the one that reads back to
`bits`: the nearer one if both do, and of two equally near ones the greater. -/
def onGrid? (bits num den : Nat) (unit : Int) : Option DecimalFraction :=
  let a := if 0 ≤ unit then num else num * Nat.pow 10 (-unit).toNat
  let b := if 0 ≤ unit then den * Nat.pow 10 unit.toNat else den
  let below : DecimalFraction := ⟨a / b, unit⟩
  let above : DecimalFraction := ⟨a / b + 1, unit⟩
  if below.bits = bits ∧ (2 * (a % b) < b ∨ above.bits ≠ bits) then some below
  else if above.bits = bits then some above
  else none

/-- The exact value of a finite double as a decimal fraction. -/
def exactFraction (bits : Nat) : DecimalFraction :=
  let e := binaryExponent bits
  if 0 ≤ e then ⟨significand bits * Nat.pow 2 e.toNat, 0⟩
  else ⟨significand bits * Nat.pow 5 (-e).toNat, e⟩

/-- The decimal fraction with the fewest digits, and among those the nearest, that reads back to a
finite double other than zero. Seventeen digits tell all doubles apart. -/
def shortestFraction (bits : Nat) : DecimalFraction :=
  let (num, den) := scaled (significand bits) 2 (binaryExponent bits)
  let top := leadingPower num den
  match (List.range 17).findSome? fun (n : Nat) => onGrid? bits num den (top - n) with
  | some d => d
  | none => exactFraction bits

/-- The digits of a decimal fraction without the zeros at their end, and the place of the point
counted from the first digit. -/
def significantDigits (d : DecimalFraction) : List Char × Int :=
  let digits := decimalDigits d.digits
  ((digits.reverse.dropWhile (· = '0')).reverse, digits.length + d.exponent)

/-- The digits with the point after the first `point` of them, `0.0001` to `9999999999999999.0`. -/
def positional (digits : List Char) (point : Int) : List Char :=
  if point ≤ 0 then '0' :: '.' :: (List.replicate (-point).toNat '0' ++ digits)
  else if digits.length ≤ point.toNat then
    digits ++ List.replicate (point.toNat - digits.length) '0' ++ ['.', '0']
  else digits.take point.toNat ++ '.' :: digits.drop point.toNat

/-- A whole number with a minus sign if it is negative. -/
def integerText (n : Int) : List Char :=
  match n with
  | .ofNat m => decimalDigits m
  | .negSucc m => '-' :: decimalDigits (m + 1)

/-- One digit, the others after a point if there are any, and the power of ten, as in `1.5e-7`. -/
def scientific (digits : List Char) (point : Int) : List Char :=
  let mantissa := match digits with
    | [] => ['0']
    | [d] => [d]
    | d :: rest => d :: '.' :: rest
  mantissa ++ 'e' :: integerText (point - 1)

/-- The text of the double with these bits, the sign left out. -/
def magnitudeText (bits : Nat) : List Char :=
  if bits = infinityBits then "inf".toList
  else if bits = 0 then "0.0".toList
  else
    let (digits, point) := significantDigits (shortestFraction bits)
    if -3 ≤ point ∧ point ≤ 16 then positional digits point else scientific digits point

def doubleText (x : Float) : List Char :=
  if isNaN x then "NaN".toList
  else if signBit ≤ x.toBits.toNat then '-' :: magnitudeText (magnitudeBits x)
  else magnitudeText (magnitudeBits x)

end Multimethod.Decimal
