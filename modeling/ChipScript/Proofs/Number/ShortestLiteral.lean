import ChipScript.Proofs.Number.WholeLiteral

/-!
# Shortest literals

Every finite number has a text, and that text is read back as the number, to the last bit
(`Literal.read?_write`).  The steps of the way there and back:

* the bits of a number are its sign and its ordinal (`ofOrdinal_ordinal`);
* rounding looks at the value of a fraction alone (`nearest_mul_left`), and a finite magnitude is
  its own rounding (`nearest_eq`), so that the exact expansion of a magnitude is read back, and with
  it the shorter decimal that is taken in its place (`nearestOrdinal_shortest`);
* the positional text of a decimal denotes a decimal of the same value (`decimal?_positional`).

The numbers that are not finite have names: there is one NaN (`eq_quietNaN`) and two infinities.
-/

namespace ChipScript.Binary64

open Float.Model

/-! ## The bits of a number -/

/-- A number is the one with its sign and its ordinal. -/
theorem ofOrdinal_ordinal (value : Float) :
    ofOrdinal (isNegative value) (ordinal value) = value := by
  have hbound : value.toBits.toNat < 2 * signBit := value.toBits.toNat_lt
  have hwhole : (if isNegative value then signBit + ordinal value else ordinal value) =
      value.toBits.toNat := by
    unfold isNegative ordinal
    split
    · next hnegative =>
      rw [decide_eq_true_iff] at hnegative
      rw [Nat.mod_eq_sub_mod hnegative, Nat.mod_eq_of_lt (by omega)]
      omega
    · next hpositive =>
      rw [decide_eq_true_iff] at hpositive
      exact Nat.mod_eq_of_lt (by omega)
  rw [ofOrdinal, hwhole, UInt64.ofNat_toNat, Float.ofBits_toBits]

/-- A NaN has the largest exponent and some mantissa. -/
theorem isNaN_ofParts (sign : UnpackedFloat.Sign) (exponent : BitVec 11) (mantissa : BitVec 52) :
    (ofParts sign exponent mantissa).isNaN = true ↔ exponent = -1#11 ∧ mantissa ≠ 0#52 := by
  unfold ofParts
  split
  · next hlargest => split <;> simp_all [UnpackedFloat.isNaN]
  · next hother =>
    have hnumeric : ∀ u : UnpackedFloat, u.isNaN = false → (u.isNaN = true ↔ exponent = -1#11 ∧
        mantissa ≠ 0#52) := fun u h => by
      rw [h]
      exact ⟨nofun, fun hboth => absurd hboth.1 hother⟩
    split
    · split <;> exact hnumeric _ rfl
    · exact hnumeric _ rfl

/-- Above infinity there are only patterns of NaN. -/
theorem isNaN_iff (value : Float) : value.isNaN = true ↔ infinity < ordinal value := by
  have hexponent := unpackExponent_toNat value.toBits.toNat
  have hmantissa := unpackMantissa_toNat value.toBits.toNat
  rw [UInt64.ofNat_toNat] at hexponent hmantissa
  change (UnpackedFloat.unpack Format.binary64 value.toBits.toBitVec).isNaN = true ↔ _
  rw [unpack_eq_ofParts, isNaN_ofParts, ← BitVec.toNat_inj, Ne, ← BitVec.toNat_inj, hexponent,
    hmantissa]
  have hlargest : (-1#11 : BitVec 11).toNat = 2047 := rfl
  have hleast : (0#52 : BitVec 52).toNat = 0 := rfl
  have hsizes : infinity = 2047 * 2 ^ 52 ∧ signBit = 2 ^ 63 := by decide
  rw [hlargest, hleast, ordinal, hsizes.1, hsizes.2]
  omega

/-- There is one NaN. -/
theorem eq_quietNaN {value : Float} (hnan : value.isNaN = true) :
    value = ofOrdinal false quietNaN := by
  obtain ⟨⟨bits, hvalid⟩⟩ := value
  have hparts : (UnpackedFloat.unpack Format.binary64 bits.toBitVec).isNaN = true := hnan
  rw [unpack_eq_ofParts, isNaN_ofParts] at hparts
  have hbits_eq : bits = UInt64.ofNat quietNaN :=
    UInt64.toBitVec_inj.1 (hvalid.eq_packedNaN hparts.1 hparts.2)
  subst hbits_eq
  rfl

/-! ## Rounding -/

theorem divNearestEven_mul (n : Nat) {den : Nat} (hpos : 0 < den) :
    divNearestEven (n * den) den = n := by
  simp [divNearestEven, hpos]

/-- A fraction may be expanded before it is rounded. -/
theorem divNearestEven_mul_left {k : Nat} (hpos : 0 < k) (num den : Nat) :
    divNearestEven (k * num) (k * den) = divNearestEven num den := by
  have htwice : 2 * (k * num % (k * den)) = k * (2 * (num % den)) := by
    rw [Nat.mul_mod_mul_left, Nat.mul_left_comm]
  simp only [divNearestEven, Nat.mul_div_mul_left _ _ hpos, htwice, Nat.mul_lt_mul_left hpos]

/-- **Rounding depends on the value of a fraction alone.** -/
theorem nearest_mul_left {k : Nat} (hpos : 0 < k) (num den : Nat) :
    nearest (k * num) (k * den) = nearest num den := by
  simp only [nearest, Nat.mul_assoc, Nat.mul_div_mul_left _ _ hpos, divNearestEven_mul_left hpos]

/-- With a hidden bit, the exponent field says by how much the significand is shifted. -/
theorem units_of_le {n : Nat} (h : hiddenBit ≤ n) :
    units n = (hiddenBit + n % hiddenBit) * 2 ^ (n / hiddenBit - 1) := by
  rw [units, if_neg (Nat.not_lt.2 h)]
  rfl

/-- The shift of a significand is found again in its leading bit. -/
theorem log2_units_of_le {n : Nat} (h : hiddenBit ≤ n) :
    (units n).log2 - fractionBits = n / hiddenBit - 1 := by
  have hremainder : n % hiddenBit < hiddenBit := Nat.mod_lt n (by decide)
  have hhidden : hiddenBit = 2 ^ 52 := rfl
  have hshifted : 0 < 2 ^ (n / hiddenBit - 1) := Nat.two_pow_pos _
  have hnonzero : (hiddenBit + n % hiddenBit) * 2 ^ (n / hiddenBit - 1) ≠ 0 :=
    Nat.mul_ne_zero (by omega) (by omega)
  have hlog : (units n).log2 = 52 + (n / hiddenBit - 1) := by
    rw [units_of_le h, Nat.log2_eq_iff hnonzero, Nat.pow_succ, Nat.pow_add, ← hhidden]
    constructor
    · exact Nat.mul_le_mul_right _ (by omega)
    · rw [Nat.mul_right_comm]
      exact Nat.mul_lt_mul_of_pos_right (by omega) hshifted
  rw [hlog]
  exact Nat.add_sub_cancel_left 52 _

/-- Without a hidden bit there is no shift. -/
theorem log2_units_of_lt {n : Nat} (h : n < hiddenBit) : (units n).log2 - fractionBits = 0 := by
  rw [units_of_lt h]
  by_cases hzero : n = 0
  · simp [hzero]
  · have hbelow : n.log2 < 52 := (Nat.log2_lt hzero).2 h
    exact Nat.sub_eq_zero_of_le (Nat.le_of_lt hbelow)

/-- The exponent and the significand together are the ordinal again. -/
theorem shift_add_significand {n : Nat} (h : hiddenBit ≤ n) :
    (n / hiddenBit - 1) * hiddenBit + (hiddenBit + n % hiddenBit) = n := by
  have hexponent : 1 ≤ n / hiddenBit := (Nat.one_le_div_iff (by decide)).2 h
  calc (n / hiddenBit - 1) * hiddenBit + (hiddenBit + n % hiddenBit)
      = (n / hiddenBit - 1 + 1) * hiddenBit + n % hiddenBit := by ring
    _ = hiddenBit * (n / hiddenBit) + n % hiddenBit := by
      rw [Nat.sub_add_cancel hexponent, Nat.mul_comm]
    _ = n := Nat.div_add_mod n hiddenBit

/-- **A finite magnitude is its own rounding.** -/
theorem nearest_eq {n num den : Nat} (hfinite : n < infinity) (hpos : 0 < den)
    (hexact : num * Nat.pow 2 unitBits = units n * den) : nearest num den = n := by
  have hwhole : units n * den / den = units n := Nat.mul_div_cancel _ hpos
  simp only [nearest, hexact, hwhole]
  simp only [Nat.pow_eq]
  rcases Nat.lt_or_ge n hiddenBit with hsmall | hlarge
  · rw [log2_units_of_lt hsmall, units_of_lt hsmall, Nat.pow_zero, Nat.mul_one, Nat.zero_mul,
      Nat.zero_add, divNearestEven_mul n hpos]
    exact Nat.min_eq_right (Nat.le_of_lt hfinite)
  · have hsplit : units n * den =
        (hiddenBit + n % hiddenBit) * (den * 2 ^ (n / hiddenBit - 1)) := by
      rw [units_of_le hlarge, Nat.mul_assoc, Nat.mul_comm den]
    rw [log2_units_of_le hlarge, hsplit,
      divNearestEven_mul _ (Nat.mul_pos hpos (Nat.two_pow_pos _)), shift_add_significand hlarge]
    exact Nat.min_eq_right (Nat.le_of_lt hfinite)

end ChipScript.Binary64

namespace ChipScript.Decimal

open Binary64

/-! ## The shortest decimal -/

/-- The exact expansion of a finite magnitude is read back as that magnitude. -/
theorem nearestOrdinal_expansion {n : Nat} (hfinite : n < infinity) :
    (atPlace 0 (expansion n)).nearestOrdinal = n := by
  have hexponent : (atPlace 0 (expansion n)).exponent = -(unitBits : Int) := by simp [atPlace]
  apply nearest_eq hfinite
  · exact Nat.pow_pos (by decide)
  · -- Units are halves of fifths of tenths.
    rw [numerator, denominator, hexponent, neg_neg, Int.toNat_natCast, Int.toNat_neg_natCast]
    simp only [atPlace, expansion, Nat.pow_eq, Nat.pow_zero, Nat.mul_one]
    rw [Nat.mul_assoc, ← Nat.mul_pow]

/-- **The shortest decimal is read back as the magnitude that it was found for.** -/
theorem nearestOrdinal_shortest {n : Nat} (hfinite : n < infinity) :
    (shortest n).nearestOrdinal = n := by
  let accepts : Decimal → Bool := (·.nearestOrdinal = n)
  have hexact : accepts (atPlace 0 (expansion n)) = true :=
    decide_eq_true (nearestOrdinal_expansion hfinite)
  exact of_decide_eq_true (accepts_shortestAccepted hexact _)

/-- Zeros at the end of the digits count in the exponent instead. -/
theorem nearestOrdinal_stripZeros (d : Decimal) :
    d.stripZeros.nearestOrdinal = d.nearestOrdinal := by
  induction d using stripZeros.induct with
  | case1 d h ih =>
    rw [stripZeros, dif_pos h, ih]
    have hwhole : 10 * (d.digits / 10) = d.digits :=
      Nat.mul_div_cancel' (Nat.dvd_of_mod_eq_zero h.2)
    by_cases hfraction : d.exponent < 0
    · -- One place after the point less: the fraction is expanded by ten.
      have hmore : (-d.exponent).toNat = (-(d.exponent + 1)).toNat + 1 := by omega
      have hnone : d.exponent.toNat = 0 ∧ (d.exponent + 1).toNat = 0 := by omega
      rw [nearestOrdinal, nearestOrdinal, ← nearest_mul_left (k := 10) (by decide)]
      simp only [numerator, denominator, hmore, hnone, Nat.pow_eq, Nat.pow_zero, Nat.pow_succ',
        Nat.mul_one, hwhole]
    · -- One zero after the digits more.
      have hmore : (d.exponent + 1).toNat = d.exponent.toNat + 1 := by omega
      have hnone : (-d.exponent).toNat = 0 ∧ (-(d.exponent + 1)).toNat = 0 := by omega
      have hdigits : d.digits / 10 * (10 * 10 ^ d.exponent.toNat) =
          d.digits * 10 ^ d.exponent.toNat := by
        rw [← Nat.mul_assoc, Nat.mul_comm _ 10, hwhole]
      simp only [nearestOrdinal, numerator, denominator, hmore, hnone, Nat.pow_eq, Nat.pow_succ',
        hdigits]
  | case2 d h => rw [stripZeros, dif_neg h]

end ChipScript.Decimal

namespace ChipScript.Literal

open Binary64

/-! ## Texts of decimals -/

/-- A zero after the digits multiplies by ten. -/
theorem decimalValue_append_zeros (ds : List Char) (n : Nat) :
    decimalValue (ds ++ List.replicate n '0') = decimalValue ds * 10 ^ n := by
  induction n with
  | zero => simp
  | succ n ih =>
    rw [List.replicate_succ', ← List.append_assoc, decimalValue, List.foldl_append, ← decimalValue,
      ih, Nat.pow_succ, ← Nat.mul_assoc]
    rfl

/-- Zeros in front of the digits do not count. -/
theorem decimalValue_zeros_append (n : Nat) (ds : List Char) :
    decimalValue (List.replicate n '0' ++ ds) = decimalValue ds := by
  induction n with
  | zero => rfl
  | succ n ih =>
    rw [List.replicate_succ, List.cons_append]
    exact ih

theorem isDigit_of_mem_zeros {n : Nat} {c : Char} (h : c ∈ List.replicate n '0') :
    c.isDigit = true := by
  rw [List.eq_of_mem_replicate h]
  rfl

theorem decimal?_digits {ds : List Char} (hdigits : ∀ c ∈ ds, c.isDigit = true)
    (hnonempty : ds ≠ []) : decimal? ds = some ⟨decimalValue ds, 0⟩ := by
  simp [decimal?, List.takeWhile_eq_self_iff.2 hdigits, List.dropWhile_eq_nil_iff.2 hdigits,
    hnonempty, scale?]

/-- Digits around a point, of which those on one side may be missing. -/
theorem decimal?_point {whole fraction : List Char} (hdigits : ∀ c ∈ whole, c.isDigit = true)
    (hdigits' : ∀ c ∈ fraction, c.isDigit = true) (hnonempty : whole ≠ [] ∨ fraction ≠ []) :
    decimal? (whole ++ '.' :: fraction) =
      some ⟨decimalValue (whole ++ fraction), -(fraction.length : Int)⟩ := by
  have hpoint : Char.isDigit '.' = false := rfl
  have hbefore : (whole ++ '.' :: fraction).takeWhile Char.isDigit = whole := by
    simp [List.takeWhile_append_of_pos hdigits, hpoint]
  have hafter : (whole ++ '.' :: fraction).dropWhile Char.isDigit = '.' :: fraction := by
    simp [List.dropWhile_append_of_pos hdigits, hpoint]
  simpa [decimal?, hbefore, hafter, List.takeWhile_eq_self_iff.2 hdigits',
    List.dropWhile_eq_nil_iff.2 hdigits', scale?] using or_iff_not_imp_left.1 hnonempty

/-- **Positional text denotes its decimal**, up to zeros that are written out. -/
theorem decimal?_positional (d : Decimal) :
    ∃ d', decimal? d.positional = some d' ∧ d'.nearestOrdinal = d.nearestOrdinal := by
  have hdigits : ∀ c ∈ Nat.toDigits 10 d.digits, c.isDigit = true := fun c hc =>
    Nat.isDigit_of_mem_toDigits (by decide) (by decide) hc
  simp only [Decimal.positional]
  split
  · next hwhole =>
    -- A whole number: the zeros of its exponent are written after the digits.
    refine ⟨_, decimal?_digits ?_ (by simp [Nat.toDigits_ne_nil]), ?_⟩
    · intro c hc
      exact (List.mem_append.1 hc).elim (hdigits c) isDigit_of_mem_zeros
    · rw [decimalValue_append_zeros, decimalValue_toDigits]
      simp [Decimal.nearestOrdinal, Decimal.numerator, Decimal.denominator, hwhole]
  · next hfraction =>
    -- A fraction: its digits are filled up so that one stands before the point.
    generalize hfilled : List.replicate _ '0' ++ Nat.toDigits 10 d.digits = padded
    have hlong : (-d.exponent).toNat < padded.length := by
      rw [← hfilled, List.length_append, List.length_replicate]
      omega
    have hdigits' : ∀ c ∈ padded, c.isDigit = true := by
      intro c hc
      rw [← hfilled] at hc
      exact (List.mem_append.1 hc).elim isDigit_of_mem_zeros (hdigits c)
    have hvalue : decimalValue padded = d.digits := by
      rw [← hfilled, decimalValue_zeros_append, decimalValue_toDigits]
    have hnonempty : padded.take (padded.length - (-d.exponent).toNat) ≠ [] := by
      apply List.ne_nil_of_length_pos
      rw [List.length_take]
      omega
    have hplaces : -((-d.exponent).toNat : Int) = d.exponent := by omega
    refine ⟨d, ?_, rfl⟩
    rw [decimal?_point (fun c hc => hdigits' c (List.mem_of_mem_take hc))
      (fun c hc => hdigits' c (List.mem_of_mem_drop hc)) (.inl hnonempty), List.take_append_drop,
      hvalue, List.length_drop, Nat.sub_sub_self (by omega), hplaces]

/-- A decimal begins with no sign and no mark of another base. -/
theorem decimal?_cons_eq_none {c : Char} (cs : List Char) (hother : c.isDigit = false)
    (hpoint : c ≠ '.') : decimal? (c :: cs) = none := by
  have hnoDigit : (c :: cs).takeWhile Char.isDigit = [] := by simp [hother]
  have hall : (c :: cs).dropWhile Char.isDigit = c :: cs := by simp [hother]
  simp only [decimal?, hnoDigit, hall]
  split
  · next after hmarked => exact absurd (List.cons.inj hmarked).1 hpoint
  · rfl

theorem unsigned?_decimal {cs : List Char} {d : Decimal} (h : decimal? cs = some d) :
    unsigned? cs = some (ofOrdinal false d.nearestOrdinal) := by
  unfold unsigned?
  split
  · next cs => simp [decimal?_cons_eq_none cs (c := '%') (by decide) (by decide)] at h
  · next cs => simp [decimal?_cons_eq_none cs (c := '$') (by decide) (by decide)] at h
  · rw [h, Option.map_some]

/-- The digits written for a finite magnitude. -/
theorem decimal?_magnitude {n : Nat} (hfinite : n < infinity) :
    ∃ d, decimal? (if n = 0 then ['0'] else (Decimal.shortest n).stripZeros.positional) = some d ∧
      d.nearestOrdinal = n := by
  split
  · next hzero =>
    subst hzero
    have hnothing : units 0 = 0 := units_of_lt (by decide)
    exact ⟨⟨0, 0⟩, rfl, nearest_eq hfinite (by decide) (by simp [Decimal.numerator, hnothing])⟩
  · obtain ⟨d, hread, hsame⟩ := decimal?_positional (Decimal.shortest n).stripZeros
    exact ⟨d, hread, by
      rw [hsame, Decimal.nearestOrdinal_stripZeros, Decimal.nearestOrdinal_shortest hfinite]⟩

/-- **The text of a finite number denotes that number**, to the last bit. -/
theorem read?_write {value : Float} (hfinite : ordinal value < infinity) :
    read? (write value) = some value := by
  obtain ⟨d, hdecimal, hsame⟩ := decimal?_magnitude hfinite
  simp only [read?, write, String.toList_ofList]
  generalize (if ordinal value = 0 then _ else _ : List Char) = text at hdecimal
  have hunsigned := unsigned?_decimal hdecimal
  rw [hsame] at hunsigned
  -- A sign is read apart from the digits, which never begin with one.
  cases hnegative : isNegative value with
  | true =>
    have hback := ofOrdinal_ordinal value
    rw [hnegative] at hback
    simp only [if_true, hunsigned, Option.map_some, neg_ofOrdinal (Nat.le_of_lt hfinite), hback]
  | false =>
    have hback := ofOrdinal_ordinal value
    rw [hnegative] at hback
    simp only [Bool.false_eq_true, if_false]
    split
    · next cs => simp [decimal?_cons_eq_none cs (c := '-') (by decide) (by decide)] at hdecimal
    · rw [hunsigned, hback]

end ChipScript.Literal
