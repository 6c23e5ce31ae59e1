import ChipScript.Number.Literal
import Mathlib

/-!
# Literals of whole numbers

The decimal text of an integer denotes the number nearest to that integer (`read?_toString`).  A
negative integer is read as the negation of its magnitude, so that negation has to be followed down
to the bits: it flips the sign and keeps the ordinal (`neg_ofOrdinal`).
-/

namespace ChipScript.Binary64

open Float.Model

/-! ## Packing and unpacking -/

/-- The number with a sign, an exponent field and a mantissa field. -/
def ofParts (sign : UnpackedFloat.Sign) (exponent : BitVec 11) (mantissa : BitVec 52) :
    UnpackedFloat :=
  if exponent = -1#11 then
    if mantissa = 0#52 then .infinity sign else .notANumber
  else if exponent = 0#11 then
    if h : mantissa = 0#52 then .zero sign
    else .finite sign mantissa.toNat ((exponent.toNat : Int) - (1023 + 52) + 1)
      (by simpa [BitVec.toNat_pos, BitVec.pos_iff_ne_zero])
  else .finite sign (2 ^ 52 + mantissa.toNat) ((exponent.toNat : Int) - (1023 + 52)) (by omega)

theorem neg_ofParts (sign : UnpackedFloat.Sign) (exponent : BitVec 11) (mantissa : BitVec 52) :
    (ofParts sign exponent mantissa).neg = ofParts (-sign) exponent mantissa := by
  unfold ofParts
  split
  · split <;> rfl
  · split
    · split <;> rfl
    · rfl

theorem one_append_toNat (mantissa : BitVec 52) :
    (1#1 ++ mantissa).toNat = 2 ^ 52 + mantissa.toNat := by
  rw [BitVec.toNat_append]
  have hbelow := mantissa.isLt
  rw [← Nat.shiftLeft_add_eq_or_of_lt hbelow]
  simp [Nat.shiftLeft_eq]

theorem unpack_eq_ofParts (b : BitVec 64) :
    UnpackedFloat.unpack Format.binary64 b =
      ofParts (.ofBitVec (@UnpackedFloat.unpackSign Format.binary64 b))
        (@UnpackedFloat.unpackExponent Format.binary64 b)
        (@UnpackedFloat.unpackMantissa Format.binary64 b) := by
  unfold UnpackedFloat.unpack ofParts
  simp only [← one_append_toNat]
  rfl

theorem unpackSign_packComponents {spec : Format} (sign : UnpackedFloat.Sign)
    (exponent : BitVec spec.exponentBits) (mantissa : BitVec spec.mantissaBitsWithoutImplicit) :
    UnpackedFloat.Sign.ofBitVec
      (UnpackedFloat.unpackSign (UnpackedFloat.packComponents spec sign exponent mantissa)) =
        sign := by
  have hbits : UnpackedFloat.unpackSign (UnpackedFloat.packComponents spec sign exponent mantissa) =
      sign.toBitVec := by
    ext i hi
    obtain rfl : i = 0 := by omega
    simp [UnpackedFloat.unpackSign, UnpackedFloat.packComponents, BitVec.getLsbD_append,
      BitVec.getElem_append]
  rw [hbits]
  cases sign <;> rfl

theorem unpack_packComponents (sign : UnpackedFloat.Sign) (exponent : BitVec 11)
    (mantissa : BitVec 52) :
    UnpackedFloat.unpack Format.binary64
      (UnpackedFloat.packComponents Format.binary64 sign exponent mantissa) =
        ofParts sign exponent mantissa := by
  rw [unpack_eq_ofParts, unpackSign_packComponents, UnpackedFloat.unpackExponent_packComponents,
    UnpackedFloat.unpackMantissa_packComponents]

theorem pack_finite_normal (sign : UnpackedFloat.Sign) {exponent : BitVec 11}
    (mantissa : BitVec 52) (hfinite : exponent ≠ -1#11) (hpositive : 0 < 2 ^ 52 + mantissa.toNat) :
    UnpackedFloat.pack Format.binary64 (.finite sign (2 ^ 52 + mantissa.toNat)
      ((exponent.toNat : Int) - (1023 + 52)) hpositive) =
        UnpackedFloat.packComponents Format.binary64 sign exponent mantissa := by
  have hbelow := mantissa.isLt
  have hsmall : exponent.toNat + 1 < 2 ^ 11 := by
    have hbound := exponent.isLt
    -- All ones are kept for the infinities and NaN.
    have hother : exponent.toNat ≠ 2 ^ 11 - 1 := by
      intro h
      exact hfinite (BitVec.eq_of_toNat_eq h)
    omega
  have hexponent_eq : ((exponent.toNat : Int) - (1023 + 52) + (Format.binary64.exponentBias : Int) +
      (Format.binary64.mantissaBitsWithoutImplicit : Int)).toNat = exponent.toNat := by
    have hbias : Format.binary64.exponentBias = 1023 := rfl
    have hwidth : Format.binary64.mantissaBitsWithoutImplicit = 52 := rfl
    rw [hbias, hwidth]
    omega
  have hlog : (2 ^ 52 + mantissa.toNat).log2 = 52 := by
    rw [Nat.log2_eq_iff (by omega)]
    omega
  have hfraction : BitVec.ofNat 52 (2 ^ 52 + mantissa.toNat) = mantissa := by
    apply BitVec.eq_of_toNat_eq
    rw [BitVec.toNat_ofNat, Nat.add_mod_left, Nat.mod_eq_of_lt hbelow]
  simp only [UnpackedFloat.pack, hexponent_eq, hlog]
  rw [if_neg (by simp only [Nat.not_le]; exact hsmall), if_pos (by rfl), hfraction]
  congr 1
  exact BitVec.eq_of_toNat_eq (by simp)

theorem pack_finite_subnormal (sign : UnpackedFloat.Sign) {mantissa : BitVec 52}
    (hpositive : 0 < mantissa.toNat) :
    UnpackedFloat.pack Format.binary64 (.finite sign mantissa.toNat
      (((0#11).toNat : Int) - (1023 + 52) + 1) hpositive) =
        UnpackedFloat.packComponents Format.binary64 sign 0#11 mantissa := by
  have hbelow := mantissa.isLt
  have hlog : mantissa.toNat.log2 < 52 := by
    rw [Nat.log2_lt (by omega)]
    exact hbelow
  have hexponent_eq :
      (((0#11).toNat : Int) - (1023 + 52) + 1 + (Format.binary64.exponentBias : Int) +
      (Format.binary64.mantissaBitsWithoutImplicit : Int)).toNat = 1 := rfl
  have hbits : Format.binary64.mantissaBits = 53 := rfl
  simp only [UnpackedFloat.pack, hexponent_eq, hbits]
  rw [if_neg (by decide), if_neg (by omega)]
  congr 1
  exact BitVec.eq_of_toNat_eq (by simp)

/-- Packing puts the three parts together again. -/
theorem pack_ofParts (sign : UnpackedFloat.Sign) {exponent : BitVec 11} {mantissa : BitVec 52}
    (hnumber : exponent = -1#11 → mantissa = 0#52) :
    UnpackedFloat.pack Format.binary64 (ofParts sign exponent mantissa) =
      UnpackedFloat.packComponents Format.binary64 sign exponent mantissa := by
  unfold ofParts
  split
  · next hinfinite =>
    rw [if_pos (hnumber hinfinite), hinfinite, hnumber hinfinite]
    rfl
  · next hfinite =>
    split
    · next hleast =>
      subst hleast
      split
      · next hzero =>
        subst hzero
        rfl
      · exact pack_finite_subnormal sign _
    · exact pack_finite_normal sign mantissa hfinite _

/-! ## Negation -/

/-- The exponent field of the bits of a number. -/
theorem unpackExponent_toNat (n : Nat) :
    (@UnpackedFloat.unpackExponent Format.binary64 (UInt64.ofNat n).toBitVec).toNat =
      n / 2 ^ 52 % 2 ^ 11 := by
  simp [UnpackedFloat.unpackExponent, Nat.shiftRight_eq_div_pow]
  omega

/-- The mantissa field of the bits of a number. -/
theorem unpackMantissa_toNat (n : Nat) :
    (@UnpackedFloat.unpackMantissa Format.binary64 (UInt64.ofNat n).toBitVec).toNat =
      n % 2 ^ 52 := by
  simp [UnpackedFloat.unpackMantissa]

/-- The sign of the bits of a number. -/
theorem unpackSign_toNat (n : Nat) :
    (@UnpackedFloat.unpackSign Format.binary64 (UInt64.ofNat n).toBitVec).toNat =
      n / 2 ^ 63 % 2 := by
  simp [UnpackedFloat.unpackSign, Nat.shiftRight_eq_div_pow]
  omega

/-- **Negation flips the sign** and keeps the ordinal. -/
theorem neg_ofOrdinal {n : Nat} (h : n ≤ infinity) : -(ofOrdinal false n) = ofOrdinal true n := by
  have hbound : n < 2 ^ 63 := Nat.lt_of_le_of_lt h (by decide)
  have hsignBit_eq : signBit = 2 ^ 63 := rfl
  -- The two patterns of bits have the same fields and different signs.
  have hexponents :
      @UnpackedFloat.unpackExponent Format.binary64 (UInt64.ofNat (signBit + n)).toBitVec =
      @UnpackedFloat.unpackExponent Format.binary64 (UInt64.ofNat n).toBitVec := by
    apply BitVec.eq_of_toNat_eq
    rw [unpackExponent_toNat, unpackExponent_toNat, hsignBit_eq]
    omega
  have hmantissas :
      @UnpackedFloat.unpackMantissa Format.binary64 (UInt64.ofNat (signBit + n)).toBitVec =
      @UnpackedFloat.unpackMantissa Format.binary64 (UInt64.ofNat n).toBitVec := by
    apply BitVec.eq_of_toNat_eq
    rw [unpackMantissa_toNat, unpackMantissa_toNat, hsignBit_eq]
    omega
  have hplus : @UnpackedFloat.unpackSign Format.binary64 (UInt64.ofNat n).toBitVec = 0#1 := by
    apply BitVec.eq_of_toNat_eq
    rw [unpackSign_toNat, Nat.div_eq_of_lt hbound]
    rfl
  have hminus :
      @UnpackedFloat.unpackSign Format.binary64 (UInt64.ofNat (signBit + n)).toBitVec = 1#1 := by
    apply BitVec.eq_of_toNat_eq
    rw [unpackSign_toNat, hsignBit_eq]
    simp only [BitVec.toNat_ofNat]
    omega
  -- Only infinity has the largest exponent, so that the bits are those of a number.
  have hnumber : @UnpackedFloat.unpackExponent Format.binary64 (UInt64.ofNat n).toBitVec = -1#11 →
      @UnpackedFloat.unpackMantissa Format.binary64 (UInt64.ofNat n).toBitVec = 0#52 := by
    intro hlargest
    have hfield := congrArg BitVec.toNat hlargest
    rw [unpackExponent_toNat] at hfield
    apply BitVec.eq_of_toNat_eq
    rw [unpackMantissa_toNat]
    have hlargest_eq : (-1#11 : BitVec 11).toNat = 2047 := rfl
    have hinfinity_eq : infinity = 2047 * 2 ^ 52 := rfl
    simp only [BitVec.toNat_ofNat]
    omega
  have hflipped : (UnpackedFloat.unpack Format.binary64 (UnpackedFloat.pack Format.binary64
      (UnpackedFloat.unpack Format.binary64 (UInt64.ofNat n).toBitVec))).neg =
        UnpackedFloat.unpack Format.binary64 (UInt64.ofNat (signBit + n)).toBitVec := by
    rw [unpack_eq_ofParts (UInt64.ofNat n).toBitVec, pack_ofParts _ hnumber, unpack_packComponents,
      neg_ofParts, unpack_eq_ofParts, hexponents, hmantissas, hplus, hminus]
    rfl
  have hpacked : Float.Model.neg (Float.Model.ofBits (UInt64.ofNat n)) =
      Float.Model.ofBits (UInt64.ofNat (signBit + n)) := congrArg Float.Model.pack hflipped
  exact congrArg Float.ofModel hpacked

end ChipScript.Binary64

namespace ChipScript.Literal

/-! ## Texts of integers -/

theorem decimalValue_toDigits (n : Nat) : decimalValue (Nat.toDigits 10 n) = n := by
  have hvalue := Nat.ofDigitChars_toDigits (b := 10) (n := n) (by decide) (by decide)
  rw [Nat.ofDigitChars_eq_foldl] at hvalue
  simpa only [decimalValue, Nat.mul_comm] using hvalue

theorem decimal?_toDigits (n : Nat) : decimal? (Nat.toDigits 10 n) = some ⟨n, 0⟩ := by
  have hdigits : ∀ c ∈ Nat.toDigits 10 n, c.isDigit = true := fun c hc =>
    Nat.isDigit_of_mem_toDigits (by decide) (by decide) hc
  simp [decimal?, List.takeWhile_eq_self_iff.2 hdigits, List.dropWhile_eq_nil_iff.2 hdigits,
    Nat.toDigits_ne_nil, scale?, decimalValue_toDigits]

/-- Decimal digits begin with no sign and no mark of another base. -/
theorem toDigits_ne_cons (n : Nat) {c : Char} (cs : List Char) (hother : c.isDigit = false) :
    Nat.toDigits 10 n ≠ c :: cs := by
  intro h
  have hdigit : c.isDigit = true :=
    Nat.isDigit_of_mem_toDigits (b := 10) (n := n) (by decide) (by decide) (by simp [h])
  rw [hother] at hdigit
  contradiction

theorem unsigned?_toDigits (n : Nat) :
    unsigned? (Nat.toDigits 10 n) = some (Binary64.ofOrdinal false (Binary64.nearest n 1)) := by
  have hread := decimal?_toDigits n
  have hwhole : (Decimal.mk n 0).nearestOrdinal = Binary64.nearest n 1 := by
    simp [Decimal.nearestOrdinal, Decimal.numerator, Decimal.denominator]
  unfold unsigned?
  split
  · next cs hmarked => exact absurd hmarked (toDigits_ne_cons n cs (by decide))
  · next cs hmarked => exact absurd hmarked (toDigits_ne_cons n cs (by decide))
  · rw [hread, Option.map_some, hwhole]

/-- **The decimal text of an integer denotes the number nearest to it.** -/
theorem read?_toString (n : Int) : read? (toString n) = some (Binary64.ofInt n) := by
  rw [Int.toString_eq_repr, Int.repr_eq_if]
  split
  · next hnonneg =>
    have hwhole : Binary64.ofInt n = Binary64.ofOrdinal false (Binary64.nearest n.toNat 1) := by
      have hmagnitude : n.natAbs = n.toNat := by omega
      rw [Binary64.ofInt, hmagnitude, decide_eq_false (by omega)]
    -- Digits never begin with a sign.
    rw [read?, Nat.toList_repr]
    split
    · next cs hsigned => exact absurd hsigned (toDigits_ne_cons n.toNat cs (by decide))
    · rw [unsigned?_toDigits, hwhole]
  · next hnegative =>
    have hwhole : Binary64.ofInt n = Binary64.ofOrdinal true (Binary64.nearest (-n).toNat 1) := by
      have hmagnitude : n.natAbs = (-n).toNat := by omega
      rw [Binary64.ofInt, hmagnitude, decide_eq_true (by omega)]
    have hcharacters : ("-" ++ (-n).toNat.repr).toList = '-' :: Nat.toDigits 10 (-n).toNat := by
      simp
    have hfinite : Binary64.nearest (-n).toNat 1 ≤ Binary64.infinity := Nat.min_le_left _ _
    rw [read?, hcharacters]
    simp only [unsigned?_toDigits, Option.map_some, hwhole, Binary64.neg_ofOrdinal hfinite]

end ChipScript.Literal
