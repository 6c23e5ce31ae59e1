import ChipScript.Proofs.Number.ShortestLiteral

/-!
# Rounding to the nearest number

A fraction lies between two neighbouring magnitudes, and rounding takes the nearer one; half way
between them it takes the even one (`exists_neighbours`).  Magnitudes grow with their ordinals
(`units_strictMono`), so that no other magnitude is as near (`nearest_isNearest`).

Infinity takes part as the power of two behind the finite magnitudes: a fraction is rounded to it
from half way between the last finite magnitude and that power on.
-/

namespace ChipScript.Binary64

open Float.Model

/-! ## The order of magnitudes -/

/-- The magnitude with a significand and a shift.  A significand that has grown to a power of two is
    that of the next shift. -/
theorem units_shift (shift significand : Nat) (hupper : significand ≤ 2 * hiddenBit)
    (hlower : shift = 0 ∨ hiddenBit ≤ significand) :
    units (shift * hiddenBit + significand) = significand * 2 ^ shift := by
  have hhidden : hiddenBit = 4503599627370496 := rfl
  rcases Nat.lt_or_ge significand hiddenBit with hsmall | hnormal
  · obtain rfl : shift = 0 := by omega
    rw [Nat.zero_mul, Nat.zero_add, units_of_lt hsmall, Nat.pow_zero, Nat.mul_one]
  · rw [units_of_le (by omega)]
    rcases Nat.lt_or_ge significand (2 * hiddenBit) with hbelow | hcarry
    · have hexponent : (shift * hiddenBit + significand) / hiddenBit = shift + 1 := by
        rw [hhidden]
        omega
      have hrest : hiddenBit + (shift * hiddenBit + significand) % hiddenBit = significand := by
        rw [hhidden]
        omega
      rw [hexponent, hrest, Nat.add_sub_cancel]
    · -- The significand has carried: its ordinal is the first of the next shift.
      obtain rfl : significand = 2 * hiddenBit := by omega
      have hexponent : (shift * hiddenBit + 2 * hiddenBit) / hiddenBit = shift + 2 := by
        rw [hhidden]
        omega
      have hrest : (shift * hiddenBit + 2 * hiddenBit) % hiddenBit = 0 := by
        rw [hhidden]
        omega
      rw [hexponent, hrest]
      simp only [Nat.add_zero, Nat.add_succ_sub_one, Nat.pow_succ]
      ring

/-- **Magnitudes grow with their ordinals.** -/
theorem units_strictMono : StrictMono units := by
  apply strictMono_nat_of_lt_succ
  intro n
  rcases Nat.lt_or_ge n hiddenBit with hsmall | hnormal
  · have hnext := units_shift 0 (n + 1) (by omega) (.inl rfl)
    rw [Nat.zero_mul, Nat.zero_add, Nat.pow_zero, Nat.mul_one] at hnext
    rw [units_of_lt hsmall, hnext]
    exact Nat.lt_succ_self n
  · -- The next number has the same exponent and one more in its significand, or that is the carry
    -- into the exponent.
    have hbelow : n % hiddenBit < hiddenBit := Nat.mod_lt n (by decide)
    have hsplit := shift_add_significand hnormal
    have hhere := units_shift (n / hiddenBit - 1) (hiddenBit + n % hiddenBit)
      (by omega) (.inr (by omega))
    have hnext := units_shift (n / hiddenBit - 1) (hiddenBit + n % hiddenBit + 1)
      (by omega) (.inr (by omega))
    rw [hsplit] at hhere
    rw [← Nat.add_assoc, hsplit] at hnext
    rw [hhere, hnext]
    exact Nat.mul_lt_mul_of_pos_right (Nat.lt_succ_self _) (Nat.two_pow_pos _)

/-! ## Neighbours -/

/-- The significand of a fraction before it is rounded has as many bits as a number holds, or fewer
    if it is not shifted. -/
theorem significand_bounds (q : Nat) :
    q / 2 ^ (q.log2 - fractionBits) < 2 * hiddenBit ∧
      (q.log2 - fractionBits = 0 ∨ hiddenBit ≤ q / 2 ^ (q.log2 - fractionBits)) := by
  have hbits : fractionBits = 52 := rfl
  have hhidden : hiddenBit = 2 ^ 52 := rfl
  have hhigh : q < 2 ^ (q.log2 + 1) := Nat.lt_log2_self
  rw [hbits, hhidden]
  -- Bits are cut off only from a quotient that has more of them than a significand.
  rcases Nat.lt_or_ge 52 q.log2 with hlarge | hsmall
  · obtain ⟨shift, hlog⟩ := Nat.exists_eq_add_of_lt hlarge
    have hlow : 2 ^ q.log2 ≤ q := Nat.log2_self_le (by rintro rfl; simp at hlarge)
    have hamount : q.log2 - 52 = shift + 1 := by omega
    rw [hamount]
    have hexponents : q.log2 = 52 + (shift + 1) := by omega
    rw [hexponents] at hhigh hlow
    refine ⟨?_, .inr ?_⟩
    · rw [Nat.div_lt_iff_lt_mul (Nat.two_pow_pos _)]
      calc q < 2 ^ (52 + (shift + 1) + 1) := hhigh
        _ = 2 * 2 ^ 52 * 2 ^ (shift + 1) := by ring
    · rw [Nat.le_div_iff_mul_le (Nat.two_pow_pos _), ← Nat.pow_add]
      exact hlow
  · have hnone : q.log2 - 52 = 0 := by omega
    rw [hnone, Nat.pow_zero, Nat.div_one]
    have hbound : 2 ^ (q.log2 + 1) ≤ 2 ^ 53 := Nat.pow_le_pow_right (by decide) (by omega)
    exact ⟨by omega, .inl rfl⟩

/-- **Rounding takes the nearer one of two neighbours**, between which the fraction lies, and the
    even one half way between them. -/
theorem exists_neighbours (num : Nat) {den : Nat} (hpos : 0 < den) :
    ∃ k, units k * den ≤ num * 2 ^ unitBits ∧ num * 2 ^ unitBits < units (k + 1) * den ∧
      nearest num den = min infinity
        (if 2 * (num * 2 ^ unitBits) < units k * den + units (k + 1) * den then k
        else if units k * den + units (k + 1) * den < 2 * (num * 2 ^ unitBits) then k + 1
        else k + k % 2) := by
  simp only [nearest, Nat.pow_eq]
  generalize num * 2 ^ unitBits = scaled
  have hhidden : hiddenBit = 4503599627370496 := rfl
  obtain ⟨hbelow, hnormal⟩ := significand_bounds (scaled / den)
  generalize (scaled / den).log2 - fractionBits = shift at hbelow hnormal
  rw [Nat.div_div_eq_div_mul] at hbelow hnormal
  have hwhole := Nat.div_add_mod scaled (den * 2 ^ shift)
  have hrest := Nat.mod_lt scaled (Nat.mul_pos hpos (Nat.two_pow_pos shift))
  -- The quotient is the significand of the lower neighbour, and one more is that of the upper one.
  have hlower := units_shift _ _ (Nat.le_of_lt hbelow) hnormal
  have hupper := units_shift shift (scaled / (den * 2 ^ shift) + 1)
    (by omega) (by omega)
  rw [← Nat.add_assoc] at hupper
  refine ⟨shift * hiddenBit + scaled / (den * 2 ^ shift), ?_⟩
  rw [hlower, hupper]
  simp only [divNearestEven]
  generalize scaled % (den * 2 ^ shift) = r at *
  generalize scaled / (den * 2 ^ shift) = a at *
  have hlower_eq : a * 2 ^ shift * den = den * 2 ^ shift * a := by ring
  have hupper_eq : (a + 1) * 2 ^ shift * den = den * 2 ^ shift * a + den * 2 ^ shift := by ring
  rw [hlower_eq, hupper_eq]
  generalize den * 2 ^ shift * a = la at *
  generalize den * 2 ^ shift = width at *
  refine ⟨by omega, by omega, ?_⟩
  -- The remainder is compared with half of the width between the neighbours.
  congr 1
  split
  · rw [if_pos (by omega)]
  · split
    · rw [if_neg (by omega), if_pos (by omega), Nat.add_assoc]
    · rw [if_neg (by omega), if_neg (by omega), hhidden]
      omega

/-! ## The nearest magnitude -/

/-- The magnitude of an ordinal.  That of infinity is the power of two behind the finite ones. -/
def magnitude (n : Nat) : ℚ :=
  units n / 2 ^ unitBits

/-- An ordinal whose magnitude is nearest to a number, and even if another one is as near. -/
structure IsNearest (x : ℚ) (n : Nat) : Prop where
  le : n ≤ infinity
  nearest : ∀ m ≤ infinity, |magnitude n - x| ≤ |magnitude m - x|
  even : ∀ m ≤ infinity, m ≠ n → |magnitude m - x| = |magnitude n - x| → n % 2 = 0

theorem magnitude_strictMono : StrictMono magnitude := by
  intro m n hbelow
  have hunits : (units m : ℚ) < units n := Nat.cast_lt.2 (units_strictMono hbelow)
  exact div_lt_div_of_pos_right hunits (pow_pos two_pos _)

/-- Only one number is the nearest. -/
theorem IsNearest.unique {x : ℚ} {n n' : Nat} (h : IsNearest x n) (h' : IsNearest x n') :
    n = n' := by
  have hbelow : ∀ {n n' : Nat}, IsNearest x n → IsNearest x n' → ¬ n < n' := by
    intro n n' h h' hless
    have hequal : |magnitude n' - x| = |magnitude n - x| :=
      le_antisymm (h'.nearest n h.le) (h.nearest n' h'.le)
    have heven := h.even n' h'.le (Nat.ne_of_gt hless) hequal
    have heven' := h'.even n h.le (Nat.ne_of_lt hless) hequal.symm
    -- Between two even ordinals there is another one, whose magnitude would be nearer than both.
    have hlow : magnitude n < magnitude (n + 1) := magnitude_strictMono (Nat.lt_succ_self n)
    have hhigh : magnitude (n + 1) < magnitude n' := magnitude_strictMono (by omega)
    have hbetween := h.nearest (n + 1) (Nat.le_trans hless h'.le)
    rcases abs_eq_abs.1 hequal with hsame | hopposite
    · linarith
    · have hcentre : |magnitude n - x| = x - magnitude n := by
        rw [abs_sub_comm]
        exact abs_of_nonneg (by linarith)
      rw [hcentre] at hbetween
      rcases le_abs.1 hbetween with habove | habove
      · linarith
      · linarith
  rcases Nat.lt_trichotomy n n' with hless | hsame | hmore
  · exact absurd hless (hbelow h h')
  · exact hsame
  · exact absurd hmore (hbelow h' h)

section Fractions

variable (num : Nat) {den : Nat} (hpos : 0 < den)

/-- By how much a magnitude misses a fraction, over a common denominator. -/
def gap (num den n : Nat) : Nat :=
  ((units n * den : Nat) - (num * 2 ^ unitBits : Nat) : Int).natAbs

include hpos

theorem abs_magnitude_sub (n : Nat) :
    |magnitude n - (num : ℚ) / den| = (gap num den n : ℚ) / (2 ^ unitBits * den) := by
  have hunit : (0 : ℚ) < 2 ^ unitBits := pow_pos two_pos _
  have hpositive : (0 : ℚ) < den := Nat.cast_pos.2 hpos
  rw [magnitude, div_sub_div _ _ hunit.ne' hpositive.ne', abs_div,
    abs_of_pos (mul_pos hunit hpositive), gap, Nat.cast_natAbs, Int.cast_abs]
  push_cast
  rw [mul_comm (num : ℚ)]

theorem abs_magnitude_sub_le (m n : Nat) :
    |magnitude m - (num : ℚ) / den| ≤ |magnitude n - (num : ℚ) / den| ↔
      gap num den m ≤ gap num den n := by
  have hpositive : (0 : ℚ) < 2 ^ unitBits * den := mul_pos (pow_pos two_pos _) (Nat.cast_pos.2 hpos)
  rw [abs_magnitude_sub num hpos, abs_magnitude_sub num hpos, div_le_div_iff_of_pos_right hpositive,
    Nat.cast_le]

/-- No magnitude misses a fraction by less than its rounding does, and none by as little if the
    rounding is odd. -/
theorem gap_nearest {m : Nat} (hbound : m ≤ infinity) :
    gap num den (nearest num den) ≤ gap num den m ∧
      (m ≠ nearest num den → gap num den m = gap num den (nearest num den) →
        nearest num den % 2 = 0) := by
  obtain ⟨k, hlow, hhigh, hrounded⟩ := exists_neighbours num hpos
  have hgrow : ∀ {a b : Nat}, a < b → units a * den < units b * den := fun hless =>
    Nat.mul_lt_mul_of_pos_right (units_strictMono hless) hpos
  simp only [gap]
  generalize num * 2 ^ unitBits = scaled at hlow hhigh hrounded ⊢
  generalize nearest num den = n at hrounded ⊢
  rcases Nat.lt_or_ge k infinity with hfinite | hoverflow
  · -- All other magnitudes lie outside of the two neighbours, one of which is taken.
    have houtside : m < k ∧ units m * den < units k * den ∨
        m = k ∧ units m * den = units k * den ∨
        m = k + 1 ∧ units m * den = units (k + 1) * den ∨
        k + 1 < m ∧ units (k + 1) * den < units m * den := by
      rcases Nat.lt_trichotomy m k with hless | rfl | hmore
      · exact .inl ⟨hless, hgrow hless⟩
      · exact .inr (.inl ⟨rfl, rfl⟩)
      · rcases Nat.eq_or_lt_of_le hmore with rfl | hbeyond
        · exact .inr (.inr (.inl ⟨rfl, rfl⟩))
        · exact .inr (.inr (.inr ⟨hbeyond, hgrow hbeyond⟩))
    rw [Nat.min_eq_right (by split_ifs <;> omega)] at hrounded
    have htaken : n = k ∧ units n * den = units k * den ∨
        n = k + 1 ∧ units n * den = units (k + 1) * den := by
      have heither : n = k ∨ n = k + 1 := by
        rw [hrounded]
        split_ifs <;> omega
      rcases heither with rfl | rfl
      · exact .inl ⟨rfl, rfl⟩
      · exact .inr ⟨rfl, rfl⟩
    clear hgrow
    generalize units k * den = lower at *
    generalize units (k + 1) * den = upper at *
    generalize units m * den = other at *
    generalize units n * den = own at *
    split_ifs at hrounded <;> omega
  · -- The fraction lies beyond all magnitudes.
    have hinfinite : n = infinity := by
      rw [hrounded]
      apply Nat.min_eq_left
      split_ifs <;> omega
    have hbehind : units n * den ≤ units k * den :=
      Nat.mul_le_mul_right den (units_strictMono.monotone (hinfinite.le.trans hoverflow))
    have hinside : m = n ∧ units m * den = units n * den ∨
        m < n ∧ units m * den < units n * den := by
      rcases Nat.eq_or_lt_of_le (hbound.trans hinfinite.ge) with rfl | hless
      · exact .inl ⟨rfl, rfl⟩
      · exact .inr ⟨hless, hgrow hless⟩
    generalize units k * den = lower at *
    generalize units m * den = other at *
    generalize units n * den = own at *
    omega

/-- **Rounding finds the number nearest to a fraction.** -/
theorem nearest_isNearest : IsNearest ((num : ℚ) / den) (nearest num den) where
  le := Nat.min_le_left _ _
  nearest _ hbound := (abs_magnitude_sub_le num hpos _ _).2 (gap_nearest num hpos hbound).1
  even _ hbound hother hequal :=
    (gap_nearest num hpos hbound).2 hother <| le_antisymm
      ((abs_magnitude_sub_le num hpos _ _).1 hequal.le)
      ((abs_magnitude_sub_le num hpos _ _).1 hequal.ge)

end Fractions

end ChipScript.Binary64
