/-!
# Rounding to binary64

Doubles are reached through their bits alone. A finite double that is not negative is a
significand times a power of two; rounding takes an exact quotient of natural numbers to the bits
of the nearest double, and to the one with the even significand when two are equally near.
-/

namespace Multimethod.Decimal

/-- Bits of positive infinity, above those of every finite double. -/
def infinityBits : Nat := 0x7ff0000000000000

def nanBits : Nat := 0x7ff8000000000000

/-- The place of the sign among the bits. -/
def signBit : Nat := 0x8000000000000000

/-- The number of doubles from one power of two up to the next. -/
def binadeSize : Nat := 0x10000000000000

/-- The bits of a double without its sign. -/
def magnitudeBits (x : Float) : Nat := x.toBits.toNat % signBit

def isNaN (x : Float) : Bool := infinityBits < magnitudeBits x

/-- Are the doubles the same number? Zeros of either sign are, and what is no number is the same as
nothing. -/
def sameNumber (x y : Float) : Bool :=
  !isNaN x && (x.toBits = y.toBits || (magnitudeBits x = 0 && magnitudeBits y = 0))

/-- The significand of a finite double that is not negative, from its bits. -/
def significand (bits : Nat) : Nat :=
  if bits / binadeSize = 0 then bits % binadeSize else binadeSize + bits % binadeSize

/-- The power of two that belongs to the significand. -/
def binaryExponent (bits : Nat) : Int :=
  if bits / binadeSize = 0 then -1074 else (bits / binadeSize : Nat) - 1075

/-- `n · baseᵉ` as a quotient of natural numbers. -/
def scaled (n base : Nat) (e : Int) : Nat × Nat :=
  if 0 ≤ e then (n * Nat.pow base e.toNat, 1) else (n, Nat.pow base (-e).toNat)

/-- Is `baseᵉ` at most the quotient? -/
def powerAtMost (base : Nat) (e : Int) (num den : Nat) : Bool :=
  if 0 ≤ e then den * Nat.pow base e.toNat ≤ num else den ≤ num * Nat.pow base (-e).toNat

/-- The quotient as a whole number; a half goes to the even neighbour. -/
def roundHalfEven (num den : Nat) : Nat :=
  if 2 * (num % den) < den ∨ (2 * (num % den) = den ∧ num / den % 2 = 0) then num / den
  else num / den + 1

/-- The power of two by which the doubles about a positive quotient are spaced. -/
def spacingExponent (num den : Nat) : Int :=
  let guess : Int := (num.log2 : Int) - den.log2
  let top := if powerAtMost 2 guess num den then guess else guess - 1
  max (top - 52) (-1074)

/-- The bits of the double nearest to a quotient, infinity past the largest one. -/
def nearestBits (num den : Nat) : Nat :=
  if num = 0 then 0
  else
    let u := spacingExponent num den
    let whole :=
      if 0 ≤ u then roundHalfEven num (den * Nat.pow 2 u.toNat)
      else roundHalfEven (num * Nat.pow 2 (-u).toNat) den
    min infinityBits ((u + 1074).toNat * binadeSize + whole)

/-- The double with this magnitude and sign. -/
def signedDouble (negative : Bool) (bits : Nat) : Float :=
  Float.ofBits (UInt64.ofNat (if negative then signBit + bits else bits))

/-- The double nearest to a whole number. -/
def doubleOfInt (n : Int) : Float := signedDouble (n < 0) (nearestBits n.natAbs 1)

end Multimethod.Decimal
