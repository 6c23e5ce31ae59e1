import ChipScript.Proofs.Number.Nearest

/-!
# How short the shortest decimal is

`Decimal.shortest` tries the neighbours of a number at one place after the other and takes the first
decimal that is read back.  It tries two decimals at each place, and still no other decimal does
with fewer digits: the decimals that are read back as one number lie together around it, so that at
a place where both neighbours fail every decimal fails.

Next to a power of ten the place of a decimal says little about how many digits it has.  What is
counted are the digits, without zeros at their end.

Main result: `shortest_isShortest`.
-/

namespace ChipScript

/-! ## Rounding keeps the order -/

namespace Binary64

/-- The greater one of two magnitudes is as near only from half way between them on. -/
theorem add_le_of_abs_sub_le {x a b : ℚ} (hless : a < b) (hnear : |b - x| ≤ |a - x|) :
    a + b ≤ 2 * x := by
  have hsquares := sq_le_sq.2 hnear
  have hproduct : 0 ≤ (b - a) * (2 * x - (a + b)) := by linarith
  linarith [nonneg_of_mul_nonneg_right hproduct (sub_pos.2 hless)]

/-- The smaller one of two magnitudes is as near only up to half way between them. -/
theorem le_add_of_abs_sub_le {x a b : ℚ} (hless : a < b) (hnear : |a - x| ≤ |b - x|) :
    2 * x ≤ a + b := by
  have hsquares := sq_le_sq.2 hnear
  have hproduct : 0 ≤ (b - a) * (a + b - 2 * x) := by linarith
  linarith [nonneg_of_mul_nonneg_right hproduct (sub_pos.2 hless)]

/-- **A greater number is not rounded to a smaller one.** -/
theorem IsNearest.mono {x y : ℚ} {m n : Nat} (hx : IsNearest x m) (hy : IsNearest y n)
    (hle : x ≤ y) : m ≤ n := by
  by_contra habove
  have hless : magnitude n < magnitude m := magnitude_strictMono (Nat.lt_of_not_le habove)
  have hlow := add_le_of_abs_sub_le hless (hx.nearest n hy.le)
  have hhigh := le_add_of_abs_sub_le hless (hy.nearest m hx.le)
  -- Both numbers stand half way between the two magnitudes, so they are one number.
  obtain rfl : x = y := by linarith
  exact habove (hx.unique hy).le

end Binary64

namespace Decimal

open Binary64

/-- The number that a decimal stands for. -/
def value (d : Decimal) : ℚ :=
  d.digits * 10 ^ d.exponent

/-- How many digits a decimal has. -/
def length (d : Decimal) : Nat :=
  (Nat.toDigits 10 d.digits).length

theorem value_eq_div (d : Decimal) : d.value = (d.numerator : ℚ) / d.denominator := by
  rw [value, numerator, denominator]
  simp only [Nat.pow_eq, Nat.cast_mul, Nat.cast_pow, Nat.cast_ofNat]
  rcases le_total 0 d.exponent with hwhole | hfraction
  · obtain ⟨k, hplaces⟩ := Int.eq_ofNat_of_zero_le hwhole
    simp [hplaces]
  · obtain ⟨k, hplaces⟩ := Int.exists_eq_neg_ofNat hfraction
    simp [hplaces, div_eq_mul_inv]

theorem nearestOrdinal_isNearest (d : Decimal) : IsNearest d.value d.nearestOrdinal := by
  rw [value_eq_div]
  exact nearest_isNearest d.numerator (Nat.pow_pos (by decide))

theorem nearestOrdinal_mono {d e : Decimal} (hle : d.value ≤ e.value) :
    d.nearestOrdinal ≤ e.nearestOrdinal :=
  d.nearestOrdinal_isNearest.mono e.nearestOrdinal_isNearest hle

/-! ## Decimals at a place -/

theorem value_atPlace (cut digits : Nat) :
    (atPlace cut digits).value = (digits * 10 ^ cut : Nat) / 10 ^ unitBits := by
  rw [value, atPlace, zpow_sub₀ (by norm_num)]
  push_cast
  rw [zpow_natCast, zpow_natCast, mul_div_assoc]

theorem value_atPlace_le {cut cut' digits digits' : Nat} :
    (atPlace cut digits).value ≤ (atPlace cut' digits').value ↔
      digits * 10 ^ cut ≤ digits' * 10 ^ cut' := by
  rw [value_atPlace, value_atPlace, div_le_div_iff_of_pos_right (by positivity), Nat.cast_le]

/-- A decimal whose last digit stands at a place or before it can be written up to that place. -/
theorem exists_value_atPlace {d : Decimal} {cut : Nat}
    (hcoarse : (cut : Int) - unitBits ≤ d.exponent) :
    ∃ digits, d.value = (atPlace cut digits).value := by
  obtain ⟨zeros, hmore⟩ := Int.le.dest hcoarse
  refine ⟨d.digits * 10 ^ zeros, ?_⟩
  rw [value, value, atPlace, ← hmore, zpow_add₀ (by norm_num), zpow_natCast]
  push_cast
  ring

/-- The exact expansion of a magnitude is its value. -/
theorem value_expansion (n : Nat) : (atPlace 0 (expansion n)).value = magnitude n := by
  rw [value_atPlace, magnitude, expansion]
  simp only [Nat.pow_eq, pow_zero, mul_one, Nat.cast_mul, Nat.cast_pow, Nat.cast_ofNat]
  rw [div_eq_div_iff (by positivity) (by positivity), mul_assoc, ← mul_pow]
  norm_num

/-! ## Neighbours -/

/-- By how much a decimal misses an expansion. -/
def distance (exact : Nat) (d : Decimal) : ℚ :=
  |d.value - (atPlace 0 exact).value|

/-- Between a decimal and an expansion, whichever of them is the greater one. -/
def Between (exact : Nat) (d e : Decimal) : Prop :=
  d.value ≤ e.value ∧ e.value ≤ (atPlace 0 exact).value ∨
    (atPlace 0 exact).value ≤ e.value ∧ e.value ≤ d.value

section Neighbours

variable {exact cut : Nat} {d e : Decimal}

theorem Between.distance_le (h : Between exact d e) : e.distance exact ≤ d.distance exact := by
  unfold distance
  rcases h with ⟨hfurther, hbelow⟩ | ⟨habove, hfurther⟩
  · rw [abs_of_nonpos (by linarith), abs_of_nonpos (by linarith)]
    linarith
  · rw [abs_of_nonneg (by linarith), abs_of_nonneg (by linarith)]
    linarith

theorem below_le : (atPlace cut (exact / 10 ^ cut)).value ≤ (atPlace 0 exact).value := by
  rw [value_atPlace_le, pow_zero, mul_one]
  exact Nat.div_mul_le_self _ _

theorem le_above : (atPlace 0 exact).value ≤ (atPlace cut (exact / 10 ^ cut + 1)).value := by
  rw [value_atPlace_le, pow_zero, mul_one, mul_comm]
  exact (Nat.lt_mul_div_succ exact (by positivity)).le

theorem mem_neighbours : e ∈ neighbours exact cut ↔
    e = atPlace cut (exact / 10 ^ cut) ∨ e = atPlace cut (exact / 10 ^ cut + 1) := by
  simp only [neighbours, Nat.pow_eq]
  split
  · simp
  · simp [or_comm]

/-- **A decimal that stands at a place has a neighbour at that place between it and the number.** -/
theorem exists_neighbour (exact : Nat) (hcoarse : (cut : Int) - unitBits ≤ d.exponent) :
    ∃ e ∈ neighbours exact cut, Between exact d e := by
  obtain ⟨digits, hsame⟩ := exists_value_atPlace hcoarse
  rcases Nat.lt_or_ge (exact / 10 ^ cut) digits with habove | hbelow
  · refine ⟨_, mem_neighbours.2 (.inr rfl), .inr ⟨le_above, ?_⟩⟩
    rw [hsame, value_atPlace_le]
    exact Nat.mul_le_mul_right _ habove
  · refine ⟨_, mem_neighbours.2 (.inl rfl), .inl ⟨?_, below_le⟩⟩
    rw [hsame, value_atPlace_le]
    exact Nat.mul_le_mul_right _ hbelow

theorem distance_below : (atPlace cut (exact / 10 ^ cut)).distance exact =
    (exact % 10 ^ cut : Nat) / 10 ^ unitBits := by
  have hwhole : ((10 ^ cut * (exact / 10 ^ cut) + exact % 10 ^ cut : Nat) : ℚ) = exact := by
    rw [Nat.div_add_mod]
  rw [distance, abs_sub_comm, abs_of_nonneg (sub_nonneg.2 below_le), value_atPlace, value_atPlace,
    ← sub_div]
  push_cast at hwhole ⊢
  congr 1
  linarith

theorem distance_above : (atPlace cut (exact / 10 ^ cut + 1)).distance exact =
    (10 ^ cut - (exact % 10 ^ cut : Nat)) / 10 ^ unitBits := by
  have hwhole : ((10 ^ cut * (exact / 10 ^ cut) + exact % 10 ^ cut : Nat) : ℚ) = exact := by
    rw [Nat.div_add_mod]
  rw [distance, abs_of_nonneg (sub_nonneg.2 le_above), value_atPlace, value_atPlace, ← sub_div]
  push_cast at hwhole ⊢
  congr 1
  linarith

/-- The nearer neighbour comes first. -/
theorem neighbours_pairwise (exact cut : Nat) :
    (neighbours exact cut).Pairwise fun d e => d.distance exact ≤ e.distance exact := by
  have hunit : (0 : ℚ) < 10 ^ unitBits := by positivity
  simp only [neighbours, Nat.pow_eq]
  split
  · next hnear =>
    have hnear : 2 * ((exact % 10 ^ cut : Nat) : ℚ) < 10 ^ cut := by exact_mod_cast hnear
    rw [List.pairwise_pair, distance_below, distance_above, div_le_div_iff_of_pos_right hunit]
    linarith
  · next hfar =>
    have hfar : (10 ^ cut : ℚ) ≤ 2 * ((exact % 10 ^ cut : Nat) : ℚ) := by
      exact_mod_cast Nat.le_of_not_lt hfar
    rw [List.pairwise_pair, distance_below, distance_above, div_le_div_iff_of_pos_right hunit]
    linarith

/-- The first neighbour that is accepted is the nearest one. -/
theorem find?_neighbours {accepts : Decimal → Bool} {r : Decimal}
    (hfound : (neighbours exact cut).find? accepts = some r) (hmem : e ∈ neighbours exact cut)
    (haccepted : accepts e = true) : r.distance exact ≤ e.distance exact := by
  obtain ⟨-, before, after, hsplit, hrefused⟩ := List.find?_eq_some_iff_append.1 hfound
  have hsorted := neighbours_pairwise exact cut
  rw [hsplit] at hmem hsorted
  rcases List.mem_append.1 hmem with hearlier | hlater
  · have hpassed := hrefused e hearlier
    rw [haccepted] at hpassed
    cases hpassed
  · rcases List.mem_cons.1 hlater with rfl | hlater
    · exact le_rfl
    · exact (List.pairwise_cons.1 (List.pairwise_append.1 hsorted).2.1).1 e hlater

end Neighbours

/-! ## The search -/

/-- What the search finds: the nearest accepted neighbour at a place, with none at a higher one. -/
structure FirstAccepted (accepts : Decimal → Bool) (exact top cut : Nat) (r : Decimal) : Prop where
  le : cut ≤ top
  mem : r ∈ neighbours exact cut
  nearest : ∀ e ∈ neighbours exact cut, accepts e = true → r.distance exact ≤ e.distance exact
  refused : ∀ higher, cut < higher → higher ≤ top → ∀ e ∈ neighbours exact higher,
    accepts e = false

theorem exists_firstAccepted (accepts : Decimal → Bool) (exact top : Nat) :
    ∃ cut, FirstAccepted accepts exact top cut (shortestAccepted accepts exact top) := by
  induction top with
  | zero =>
    refine ⟨0, le_rfl, mem_neighbours.2 (.inl ?_), fun e _ _ => ?_, fun _ hmore hle => ?_⟩
    · simp [shortestAccepted]
    · simp [shortestAccepted, distance]
    · omega
  | succ top ih =>
    unfold shortestAccepted
    split
    · -- Accepted at the first cut tried: no cut above it remains.
      next r hfound =>
      exact ⟨top + 1, le_rfl, List.mem_of_find?_eq_some hfound, fun e => find?_neighbours hfound,
        fun _ hmore hle => absurd hle (Nat.not_le_of_lt hmore)⟩
    · next hnone =>
      -- Refused at this cut, so the cut that is found below has one more refused above it.
      obtain ⟨cut, hfirst⟩ := ih
      refine ⟨cut, hfirst.le.trans (Nat.le_succ top), hfirst.mem, hfirst.nearest, ?_⟩
      intro higher hmore hle e hmem
      rcases Nat.eq_or_lt_of_le hle with rfl | hless
      · exact Bool.eq_false_iff.2 (List.find?_eq_none.1 hnone e hmem)
      · exact hfirst.refused higher hmore (Nat.le_of_lt_succ hless) e hmem

/-- Decimals that are accepted lie together around an expansion. -/
def Surrounds (accepts : Decimal → Bool) (exact : Nat) : Prop :=
  ∀ d e, accepts d = true → Between exact d e → accepts e = true

/-- **The decimals that are read back as a number lie together around it.** -/
theorem surrounds_nearestOrdinal {n : Nat} (hfinite : n < infinity) :
    Surrounds (·.nearestOrdinal = n) (expansion n) := by
  intro d e hread hbetween
  have hread : d.nearestOrdinal = n := of_decide_eq_true hread
  have hcentre := nearestOrdinal_expansion hfinite
  refine decide_eq_true (le_antisymm ?_ ?_)
  · rcases hbetween with ⟨-, hbelow⟩ | ⟨-, hfurther⟩
    · exact (nearestOrdinal_mono hbelow).trans hcentre.le
    · exact (nearestOrdinal_mono hfurther).trans hread.le
  · rcases hbetween with ⟨hfurther, -⟩ | ⟨habove, -⟩
    · exact hread.ge.trans (nearestOrdinal_mono hfurther)
    · exact hcentre.ge.trans (nearestOrdinal_mono habove)

/-! ## Counting digits -/

theorem length_le_iff {d : Decimal} {k : Nat} (hpos : 0 < k) : d.length ≤ k ↔ d.digits < 10 ^ k :=
  Nat.length_toDigits_le_iff (by decide) hpos

theorem length_pos (d : Decimal) : 0 < d.length :=
  Nat.length_toDigits_pos

theorem value_stripZeros (d : Decimal) : d.stripZeros.value = d.value := by
  induction d using stripZeros.induct with
  | case1 d h ih =>
    have hwhole : ((10 * (d.digits / 10) : Nat) : ℚ) = d.digits := by
      rw [Nat.mul_div_cancel' (Nat.dvd_of_mod_eq_zero h.2)]
    rw [stripZeros, dif_pos h, ih, value, value, zpow_add_one₀ (by norm_num), ← hwhole]
    push_cast
    ring
  | case2 d h => rw [stripZeros, dif_neg h]

theorem stripZeros_digits_le (d : Decimal) : d.stripZeros.digits ≤ d.digits := by
  induction d using stripZeros.induct with
  | case1 d h ih =>
    rw [stripZeros, dif_pos h]
    exact ih.trans (Nat.div_le_self _ _)
  | case2 d h => rw [stripZeros, dif_neg h]

/-- A power of ten has one digit and zeros. -/
theorem stripZeros_pow (k : Nat) (exponent : Int) : (stripZeros ⟨10 ^ k, exponent⟩).digits = 1 := by
  induction k generalizing exponent with
  | zero =>
    rw [stripZeros, dif_neg (by simp)]
    rfl
  | succ k ih =>
    rw [stripZeros, dif_pos ⟨by positivity, by simp [pow_succ]⟩]
    simp only [pow_succ, Nat.mul_div_cancel _ (show 0 < 10 by decide)]
    exact ih _

/-- A number below a power of ten has no more digits than that, and none but zeros more if it is
    that power. -/
theorem length_stripZeros_le {d : Decimal} {k : Nat} (hpos : 0 < k) (hle : d.digits ≤ 10 ^ k) :
    d.stripZeros.length ≤ k := by
  rw [length_le_iff hpos]
  rcases Nat.lt_or_eq_of_le hle with hless | hequal
  · exact d.stripZeros_digits_le.trans_lt hless
  · obtain ⟨digits, exponent⟩ := d
    obtain rfl : digits = 10 ^ k := hequal
    rw [stripZeros_pow]
    exact Nat.one_lt_pow hpos.ne' (by decide)

/-- The place of the leading digit. -/
theorem exists_top {n : Nat} (hpos : 0 < n) :
    ∃ top, (Nat.toDigits 10 n).length = top + 1 ∧ 10 ^ top ≤ n ∧ n < 10 ^ (top + 1) := by
  obtain ⟨top, hcount⟩ := Nat.exists_eq_add_of_le' (Nat.length_toDigits_pos (b := 10) (n := n))
  refine ⟨top, hcount, ?_, (Nat.length_toDigits_le_iff (by decide) top.succ_pos).1 hcount.le⟩
  cases top with
  | zero => exact hpos
  | succ top =>
    by_contra hless
    have hshort := (Nat.length_toDigits_le_iff (by decide) top.succ_pos).2 (Nat.lt_of_not_le hless)
    omega

/-- A decimal above a power of ten has the digits that lead down from there to its place. -/
theorem lt_exponent_add_length {d : Decimal} {place : Int} (habove : (10 : ℚ) ^ place < d.value) :
    place < d.exponent + d.length := by
  have hdigits : (d.digits : ℚ) < 10 ^ (d.length : Int) := by
    rw [zpow_natCast]
    exact_mod_cast (length_le_iff d.length_pos).1 le_rfl
  have hbelow : d.value < 10 ^ (d.exponent + d.length) := by
    rw [zpow_add₀ (by norm_num), mul_comm]
    exact mul_lt_mul_of_pos_right hdigits (by positivity)
  exact (zpow_lt_zpow_iff_right₀ (by norm_num)).1 (habove.trans hbelow)

section Shortest

variable {accepts : Decimal → Bool} {exact top cut : Nat} {r d : Decimal}
  (hsurrounds : Surrounds accepts exact) (hfirst : FirstAccepted accepts exact top cut r)
  (hlow : 10 ^ top ≤ exact) (hhigh : exact < 10 ^ (top + 1)) (haccepted : accepts d = true)

include hfirst hhigh in
/-- The search has found a decimal with as many digits as stand between its place and the top. -/
theorem FirstAccepted.length_le : r.stripZeros.length ≤ top + 1 - cut := by
  have hle := hfirst.le
  refine length_stripZeros_le (by omega) ?_
  have hbelow : exact / 10 ^ cut < 10 ^ (top + 1 - cut) := by
    rw [Nat.div_lt_iff_lt_mul (by positivity), ← Nat.pow_add]
    rwa [Nat.sub_add_cancel (by omega)]
  rcases mem_neighbours.1 hfirst.mem with rfl | rfl
  · exact hbelow.le
  · exact hbelow

include hlow in
/-- What lies above the lower neighbour at a place lies above the power of ten at the top. -/
theorem pow_lt_value (hle : cut ≤ top)
    (habove : (atPlace cut (exact / 10 ^ cut)).value < d.value) :
    (10 : ℚ) ^ ((top : Int) - unitBits) < d.value := by
  refine lt_of_le_of_lt ?_ habove
  have hleading : 10 ^ (top - cut) ≤ exact / 10 ^ cut := by
    rw [Nat.le_div_iff_mul_le (by positivity), ← Nat.pow_add, Nat.sub_add_cancel hle]
    exact hlow
  calc (10 : ℚ) ^ ((top : Int) - unitBits)
      = (atPlace top 1).value := by rw [value, atPlace, Nat.cast_one, one_mul]
    _ ≤ (atPlace cut (exact / 10 ^ cut)).value := by
      rw [value_atPlace_le, one_mul]
      calc 10 ^ top = 10 ^ (top - cut) * 10 ^ cut := by rw [← Nat.pow_add, Nat.sub_add_cancel hle]
        _ ≤ exact / 10 ^ cut * 10 ^ cut := Nat.mul_le_mul_right _ hleading

include hsurrounds in
/-- A decimal that is accepted does not stand at a place where both neighbours are refused. -/
theorem exponent_lt_of_refused (haccepted : accepts d = true)
    (hrefused : ∀ e ∈ neighbours exact cut, accepts e = false) :
    d.exponent < (cut : Int) - unitBits := by
  by_contra hcoarse
  obtain ⟨e, hmem, hbetween⟩ := exists_neighbour exact (Int.not_lt.1 hcoarse)
  have hpassed := hsurrounds d e haccepted hbetween
  rw [hrefused e hmem] at hpassed
  cases hpassed

include hsurrounds hfirst hlow hhigh haccepted

/-- **No accepted decimal has fewer digits than the one found.** -/
theorem FirstAccepted.length_le_length : r.stripZeros.length ≤ d.length := by
  have hshort := hfirst.length_le hhigh
  have hsome := d.length_pos
  rcases Nat.eq_or_lt_of_le hfirst.le with rfl | hbelow
  · omega
  · -- The decimal stands at no higher place, and reaches up to the top: else the leading digit
    -- alone would have been accepted.
    have hplace := exponent_lt_of_refused hsurrounds haccepted
      (hfirst.refused (cut + 1) (Nat.lt_succ_self cut) hbelow)
    have habove : (atPlace top (exact / 10 ^ top)).value < d.value := by
      by_contra hfurther
      have hpassed := hsurrounds d _ haccepted (.inl ⟨not_lt.1 hfurther, below_le⟩)
      rw [hfirst.refused top hbelow le_rfl _ (mem_neighbours.2 (.inl rfl))] at hpassed
      cases hpassed
    have hreach := lt_exponent_add_length (pow_lt_value hlow le_rfl habove)
    push_cast at hplace
    omega

/-- **Of the accepted decimals with as few digits, none is nearer than the one found.** -/
theorem FirstAccepted.distance_le (hfew : d.length ≤ r.stripZeros.length) :
    r.distance exact ≤ d.distance exact := by
  -- With a neighbour between it and the number, the decimal is no nearer than that neighbour.
  have hnearest : ∀ e ∈ neighbours exact cut, Between exact d e →
      r.distance exact ≤ d.distance exact := fun e hmem hbetween =>
    (hfirst.nearest e hmem (hsurrounds d e haccepted hbetween)).trans hbetween.distance_le
  rcases le_or_gt ((cut : Int) - unitBits) d.exponent with hcoarse | hfine
  · obtain ⟨e, hmem, hbetween⟩ := exists_neighbour exact hcoarse
    exact hnearest e hmem hbetween
  · rcases le_or_gt d.value (atPlace cut (exact / 10 ^ cut)).value with hfurther | habove
    · exact hnearest _ (mem_neighbours.2 (.inl rfl)) (.inl ⟨hfurther, below_le⟩)
    · -- A decimal at a lower place that lies above the lower neighbour has more digits.
      have hreach := lt_exponent_add_length (pow_lt_value hlow hfirst.le habove)
      have hshort := hfirst.length_le hhigh
      have hle := hfirst.le
      omega

end Shortest

/-- **The shortest decimal has the fewest digits**, zeros at the end apart, of all decimals that are
    read back as the number, and of those with as few digits it is one of the nearest. -/
theorem shortest_isShortest {n : Nat} (hpos : 0 < n) (hfinite : n < infinity) {d : Decimal}
    (hread : d.nearestOrdinal = n) :
    (shortest n).stripZeros.length ≤ d.length ∧
      (d.length ≤ (shortest n).stripZeros.length →
        |(shortest n).stripZeros.value - magnitude n| ≤ |d.value - magnitude n|) := by
  have hpositive : 0 < units n := by
    have hnothing : units 0 = 0 := units_of_lt (by decide)
    exact hnothing.symm.trans_lt (units_strictMono hpos)
  have hsome : 0 < expansion n := by
    rw [expansion, Nat.pow_eq]
    positivity
  -- The search begins at the leading digit of the expansion.
  obtain ⟨top, hcount, hlow, hhigh⟩ := exists_top hsome
  obtain ⟨cut, hfirst⟩ := exists_firstAccepted (·.nearestOrdinal = n) (expansion n) top
  have hfound : shortest n = shortestAccepted (·.nearestOrdinal = n) (expansion n) top := by
    rw [shortest, hcount]
    rfl
  rw [← hfound] at hfirst
  have haccepted := decide_eq_true hread
  have hsurrounds := surrounds_nearestOrdinal hfinite
  rw [value_stripZeros, ← value_expansion]
  exact ⟨hfirst.length_le_length hsurrounds hlow hhigh haccepted,
    hfirst.distance_le hsurrounds hlow hhigh haccepted⟩

end Decimal
end ChipScript
