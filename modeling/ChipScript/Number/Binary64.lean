/-!
# Binary64 magnitudes

Numbers of the language are binary64 floating-point numbers.  The 63 bits below the sign of such a
number, read as a natural number, are its *ordinal*: ordinals are ordered as the magnitudes they
stand for, and neighbours in one order are neighbours in the other.  Every finite magnitude is a
whole multiple of `2 ^ (-1074)`, so it is held exactly by a natural number of such units, and
rounding a fraction is exact arithmetic on natural numbers.
-/

namespace ChipScript.Binary64

/-! ## Magnitudes and ordinals -/

/-- The number of stored bits of a significand. -/
def fractionBits : Nat := 52

/-- Magnitudes are counted in units of `2 ^ (-unitBits)`. -/
def unitBits : Nat := 1074

/-- The least ordinal whose significand has a hidden bit, which is also the value of that bit. -/
def hiddenBit : Nat := Nat.pow 2 fractionBits

/-- The ordinal of infinity: every smaller ordinal is that of a finite magnitude. -/
def infinity : Nat := 0x7FF0000000000000

/-- The ordinal of the NaN that operations give. -/
def quietNaN : Nat := 0x7FF8000000000000

/-- The value of the sign bit. -/
def signBit : Nat := 0x8000000000000000

/-- The finite magnitude of an ordinal, in units.  Below the hidden bit it is the ordinal itself;
above, the exponent field says how far the significand is shifted. -/
def units (ordinal : Nat) : Nat :=
  if ordinal < hiddenBit then ordinal
  else (hiddenBit + ordinal % hiddenBit) * Nat.pow 2 (ordinal / hiddenBit - 1)

/-! ## Rounding -/

/-- The whole number nearest to `num / den`; of two equally near, the even one. -/
def divNearestEven (num den : Nat) : Nat :=
  let quotient := num / den
  let twice := 2 * (num % den)
  if twice < den then quotient
  else if den < twice then quotient + 1
  else quotient + quotient % 2

/-- The ordinal of the magnitude nearest to `num / den`; of two equally near, the even one.  A
fraction beyond the finite magnitudes rounds to infinity.

The significand is rounded at the place of `2 ^ shift` units.  Adding it to the exponent instead of
packing it next to the exponent lets a significand that rounds up to a power of two carry. -/
def nearest (num den : Nat) : Nat :=
  let scaled := num * Nat.pow 2 unitBits
  let shift := (scaled / den).log2 - fractionBits
  min infinity (shift * hiddenBit + divNearestEven scaled (den * Nat.pow 2 shift))

/-! ## Floating-point numbers -/

/-- The number with a given sign and ordinal. -/
def ofOrdinal (negative : Bool) (ordinal : Nat) : Float :=
  Float.ofBits (UInt64.ofNat (if negative then signBit + ordinal else ordinal))

/-- The ordinal of a number's magnitude. -/
def ordinal (value : Float) : Nat :=
  value.toBits.toNat % signBit

/-- Whether a number carries the sign, negative zero included. -/
def isNegative (value : Float) : Bool :=
  signBit ≤ value.toBits.toNat

/-- The number nearest to an integer. -/
def ofInt (n : Int) : Float :=
  ofOrdinal (n < 0) (nearest n.natAbs 1)

/-! ## Elementary facts -/

theorem units_of_lt {b : Nat} (h : b < hiddenBit) : units b = b := by
  simp [units, h]

end ChipScript.Binary64
