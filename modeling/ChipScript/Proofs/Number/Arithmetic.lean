import ChipScript.Node.Value
import ChipScript.Operator
import ChipScript.Proofs.Number.Comparison
import ChipScript.Proofs.Number.ShortestLiteral

/-!
# Arithmetic with zero and one

Two numbers are alike if they are the same, NaN among them, or if they are the two zeros, which
differ in their sign alone.

* One is neutral for products, to the last bit (`times_one`, `one_times`).  Zero is neutral for sums
  and differences up to the sign of a zero, and a product with zero is a zero if the other factor is
  finite (`plus_zero`, `times_zero`).
* Sums, differences, products and comparisons of alike numbers are alike (`Alike.apply`,
  `Alike.holds`).  Quotients are not: a number divided by the two zeros gives the two infinities.
-/

namespace ChipScript

open Float.Model

/-! ## Unpacked numbers -/

/-- What a number unpacks to. -/
def unpacked (x : Float) : UnpackedFloat :=
  x.toModel.unpack

/-- The number that is packed. -/
def packed (u : UnpackedFloat) : Float :=
  Float.ofModel (Float.Model.pack u)

theorem packed_unpacked (x : Float) : packed (unpacked x) = x := by
  obtain ⟨⟨bits, hvalid⟩⟩ := x
  have hsame := UnpackedFloat.pack_unpack_of_valid hvalid
  apply congrArg Float.ofModel
  simp only [Float.Model.pack, Float.Model.mk.injEq]
  exact congrArg UInt64.ofBitVec hsame

theorem unpacked_injective {x y : Float} (h : unpacked x = unpacked y) : x = y := by
  rw [← packed_unpacked x, h, packed_unpacked]

/-- Whether a number is zero, of either sign. -/
def IsZero (x : Float) : Prop :=
  ∃ sign, unpacked x = .zero sign

theorem isZero_iff {x : Float} : IsZero x ↔ (x == 0.0) = true := by
  change _ ↔ UnpackedFloat.beq (unpacked x) (.zero .positive) = true
  rw [UnpackedFloat.beq_iff_ne_notANumber_and_eq]
  constructor
  · rintro ⟨sign, hzero⟩
    cases sign <;> simp [hzero]
  · rintro ⟨-, -, hsame | ⟨hzero, -⟩ | ⟨hzero, -⟩⟩
    · exact ⟨_, hsame⟩
    · exact ⟨_, hzero⟩
    · exact ⟨_, hzero⟩

theorem isZero_zero : IsZero 0.0 :=
  ⟨.positive, rfl⟩

/-! ## Alike numbers -/

/-- Two numbers are the same, or they are two zeros of opposite signs.  There is one NaN, and it is
    the same as itself. -/
def Alike (a b : Float) : Prop :=
  a = b ∨ (a == b) = true

/-- Two numbers are zeros of opposite signs. -/
def OppositeZeros (a b : Float) : Prop :=
  (a == b) = true ∧ a ≠ b

instance (a b : Float) : Decidable (Alike a b) :=
  inferInstanceAs (Decidable (_ ∨ _))

instance (a b : Float) : Decidable (OppositeZeros a b) :=
  inferInstanceAs (Decidable (_ ∧ _))

theorem alike_iff {a b : Float} : Alike a b ↔ a = b ∨ IsZero a ∧ IsZero b := by
  have hequal : (a == b) = true ↔ UnpackedFloat.beq (unpacked a) (unpacked b) = true := Iff.rfl
  rw [Alike, hequal, UnpackedFloat.beq_iff_ne_notANumber_and_eq]
  constructor
  · rintro (hsame | ⟨-, -, hsame | ⟨hzero, hzero'⟩ | ⟨hzero, hzero'⟩⟩)
    · exact .inl hsame
    · exact .inl (unpacked_injective hsame)
    · exact .inr ⟨⟨_, hzero⟩, _, hzero'⟩
    · exact .inr ⟨⟨_, hzero⟩, _, hzero'⟩
  · rintro (hsame | ⟨⟨sign, hzero⟩, sign', hzero'⟩)
    · exact .inl hsame
    · right
      rw [hzero, hzero']
      cases sign <;> cases sign' <;> simp

namespace Alike

theorem refl (a : Float) : Alike a a :=
  .inl rfl

theorem of_zeros {a b : Float} (h : IsZero a) (h' : IsZero b) : Alike a b :=
  alike_iff.2 (.inr ⟨h, h'⟩)

theorem symm {a b : Float} (h : Alike a b) : Alike b a := by
  rcases alike_iff.1 h with rfl | ⟨hzero, hzero'⟩
  · exact .refl _
  · exact of_zeros hzero' hzero

theorem trans {a b c : Float} (h : Alike a b) (h' : Alike b c) : Alike a c := by
  rcases alike_iff.1 h with rfl | ⟨hzero, -⟩
  · exact h'
  · rcases alike_iff.1 h' with rfl | ⟨-, hzero'⟩
    · exact h
    · exact of_zeros hzero hzero'

/-- Numbers that are alike and no zeros of opposite signs are the same. -/
theorem eq {a b : Float} (h : Alike a b) (hsame : ¬ OppositeZeros a b) : a = b :=
  by_contra fun hdifferent => hsame ⟨h.resolve_left hdifferent, hdifferent⟩

theorem isFinite {a b : Float} (h : Alike a b) : a.isFinite = b.isFinite := by
  rcases alike_iff.1 h with rfl | ⟨⟨sign, hzero⟩, sign', hzero'⟩
  · rfl
  · change (unpacked a).isFinite = (unpacked b).isFinite
    rw [hzero, hzero']
    rfl

end Alike

/-! ## Comparisons -/

/-- The sign of a zero takes no part in a comparison. -/
theorem Alike.ordering? {a a' b b' : Float} (h : Alike a a') (h' : Alike b b') :
    ordering? a b = ordering? a' b' := by
  have hleft : ∀ {x x' : Float}, Alike x x' →
      ∀ y, ChipScript.ordering? x y = ChipScript.ordering? x' y := by
    intro x x' halike y
    rcases alike_iff.1 halike with rfl | ⟨⟨sign, hzero⟩, sign', hzero'⟩
    · rfl
    · change (unpacked x).compare (unpacked y) = (unpacked x').compare (unpacked y)
      rw [hzero, hzero']
      cases unpacked y with
      | infinity s | finite s m e hpos => cases s <;> rfl
      | _ => rfl
  rw [hleft h, ordering?_swap b a', hleft h', ← ordering?_swap]

theorem Comparison.holds_eq_of_ordering? (c : Comparison) {a a' b b' : Float}
    (h : ordering? a b = ordering? a' b') : c.holds a b = c.holds a' b' := by
  have hback : ordering? b a = ordering? b' a' := by rw [ordering?_swap a, ordering?_swap a', h]
  have hequal : ∀ x y : Float, (x == y) = (ordering? x y == some .eq) := fun _ _ => rfl
  cases c with
  | equal => simp only [holds, hequal, h]
  | notEqual => simp only [holds, bne, hequal, h]
  | less => simp only [holds, lt_iff_ordering?, h]
  | lessEqual => simp only [holds, le_iff_ordering?, h]
  | greater => simp only [holds, lt_iff_ordering?, hback]
  | greaterEqual => simp only [holds, le_iff_ordering?, hback]

/-- **Comparisons of alike numbers give the same.** -/
theorem Alike.holds {a a' b b' : Float} (h : Alike a a') (h' : Alike b b') (c : Comparison) :
    c.holds a b = c.holds a' b' :=
  c.holds_eq_of_ordering? (h.ordering? h')

theorem Alike.isTrue {a b : Float} (h : Alike a b) : isTrue a = isTrue b :=
  (Alike.refl 1.0).holds h .lessEqual

/-! ## Operations -/

/-- Alike numbers come from the same unpacked ones, or from zeros. -/
theorem alike_packed {u v : UnpackedFloat}
    (h : u = v ∨ (∃ sign, u = .zero sign) ∧ ∃ sign, v = .zero sign) :
    Alike (packed u) (packed v) := by
  rcases h with rfl | ⟨⟨sign, rfl⟩, sign', rfl⟩
  · exact .refl _
  · refine .of_zeros ⟨sign, ?_⟩ ⟨sign', ?_⟩
    · exact UnpackedFloat.unpack_packedZero
    · exact UnpackedFloat.unpack_packedZero

/-- What an operation does to unpacked numbers. -/
def Arithmetic.onUnpacked : Arithmetic → UnpackedFloat → UnpackedFloat → UnpackedFloat
  | .add => UnpackedFloat.add Format.binary64
  | .sub => UnpackedFloat.sub Format.binary64
  | .mul => UnpackedFloat.mul Format.binary64
  | .div => UnpackedFloat.div Format.binary64

theorem Arithmetic.apply_eq_packed (operator : Arithmetic) (a b : Float) :
    operator.apply a b = packed (operator.onUnpacked (unpacked a) (unpacked b)) := by
  cases operator <;> rfl

/-- **Operations on alike numbers give alike results**, unless a divisor is a zero whose sign is not
    the same. -/
theorem Alike.apply {a a' b b' : Float} (h : Alike a a') (h' : Alike b b') (operator : Arithmetic)
    (hdivisor : operator = .div → b = b') : Alike (operator.apply a b) (operator.apply a' b') := by
  have hleft : Alike (operator.apply a b) (operator.apply a' b) := by
    rcases alike_iff.1 h with rfl | ⟨⟨sign, hzero⟩, sign', hzero'⟩
    · exact .refl _
    · -- From a zero, an operation makes a zero, or what it makes of the other zero.
      rw [operator.apply_eq_packed, operator.apply_eq_packed, hzero, hzero']
      apply alike_packed
      cases operator <;> cases unpacked b <;> cases sign <;> cases sign' <;>
        simp [Arithmetic.onUnpacked, UnpackedFloat.add, UnpackedFloat.sub, UnpackedFloat.mul,
          UnpackedFloat.div, ← apply_ite UnpackedFloat.zero]
  refine hleft.trans ?_
  rcases alike_iff.1 h' with rfl | ⟨⟨sign, hzero⟩, sign', hzero'⟩
  · exact .refl _
  · cases operator with
    | div => rw [hdivisor rfl]; exact .refl _
    | _ =>
      rw [Arithmetic.apply_eq_packed, Arithmetic.apply_eq_packed, hzero, hzero']
      apply alike_packed
      cases unpacked a' <;> cases sign <;> cases sign' <;>
        simp [Arithmetic.onUnpacked, UnpackedFloat.add, UnpackedFloat.sub, UnpackedFloat.mul,
          ← apply_ite UnpackedFloat.zero]

/-! ## One -/

/-- The exponent of a finite number is the one that its magnitude asks for. -/
theorem targetExponent_of_unpacked {x : Float} {s : UnpackedFloat.Sign} {m : Nat} {e : Int}
    {hpos : 0 < m} (h : unpacked x = .finite s m e hpos) :
    Format.binary64.targetExponent (totalExponent m e) = e := by
  have hfields : unpacked x = Binary64.ofParts _ _ _ := Binary64.unpack_eq_ofParts _
  rw [hfields] at h
  have hwidth : (Format.binary64.mantissaBits : Int) = 53 := rfl
  have hleast : Format.binary64.minExponent = -1074 := rfl
  rw [Format.targetExponent, totalExponent, hwidth, hleast]
  generalize @UnpackedFloat.unpackExponent Format.binary64 _ = exponent at h
  generalize @UnpackedFloat.unpackMantissa Format.binary64 _ = mantissa at h
  have hbelow : mantissa.toNat < 2 ^ 52 := mantissa.isLt
  unfold Binary64.ofParts at h
  split at h
  · split at h <;> cases h
  · split at h
    · -- A subnormal number has the least exponent, which its short significand asks for.
      next hsubnormal =>
      split at h
      · cases h
      · obtain ⟨rfl, rfl, rfl⟩ := UnpackedFloat.finite.inj h
        have hlog : mantissa.toNat.log2 < 52 := (Nat.log2_lt (by omega)).2 hbelow
        rw [hsubnormal]
        simp only [BitVec.toNat_ofNat]
        omega
    · -- The hidden bit makes the significand as long as the format holds.
      next hnormal =>
      obtain ⟨rfl, rfl, rfl⟩ := UnpackedFloat.finite.inj h
      have hlog : (2 ^ 52 + mantissa.toNat).log2 = 52 := by
        rw [Nat.log2_eq_iff (by omega)]
        omega
      have hpositive : 0 < exponent.toNat :=
        (BitVec.toNat_pos _).2 ((BitVec.pos_iff_ne_zero _).2 hnormal)
      rw [hlog]
      omega

/-- Zeros at the end of a mantissa are shifted out without a trace. -/
theorem shiftRight_zeros (m n : Nat) :
    (⟨m * 2 ^ n, false, false⟩ : UnpackedFloat.ExtendedMantissa) >>> n = ⟨m, false, false⟩ := by
  induction n generalizing m with
  | zero => simp [HShiftRight.hShiftRight, Nat.repeat]
  | succ n ih =>
    have hstep : (⟨m * 2 ^ (n + 1), false, false⟩ : UnpackedFloat.ExtendedMantissa) >>> (n + 1) =
        ((⟨m * 2 * 2 ^ n, false, false⟩ : UnpackedFloat.ExtendedMantissa) >>> n).shiftRightOne := by
      rw [Nat.mul_assoc, ← Nat.pow_succ']
      rfl
    rw [hstep, ih]
    simp [UnpackedFloat.ExtendedMantissa.shiftRightOne]

theorem log2_zeros {m : Nat} (hpos : 0 < m) (n : Nat) : (m * 2 ^ n).log2 = m.log2 + n := by
  have hlow := Nat.mul_le_mul_right (2 ^ n) (Nat.log2_self_le (Nat.ne_of_gt hpos))
  have hhigh := Nat.mul_lt_mul_of_pos_right (Nat.lt_log2_self (n := m)) (Nat.two_pow_pos n)
  rw [Nat.log2_eq_iff (Nat.ne_of_gt (Nat.mul_pos hpos (Nat.two_pow_pos n)))]
  exact ⟨by rwa [Nat.pow_add], by rwa [Nat.add_right_comm, Nat.pow_add]⟩

/-- A magnitude that fits is not rounded, however many zeros are written behind it. -/
theorem shiftToTargetExponent_zeros {m : Nat} {e : Int} (hpos : 0 < m)
    (hfits : Format.binary64.targetExponent (totalExponent m e) = e) (n : Nat) :
    UnpackedFloat.shiftToTargetExponent Format.binary64 (m * 2 ^ n) (e - n) .exact =
      (⟨m, false, false⟩, e) := by
  have hsame : totalExponent (m * 2 ^ n) (e - n) = totalExponent m e := by
    rw [totalExponent, totalExponent, log2_zeros hpos]
    omega
  have hamount : (e - (e - n)).toNat = n := by omega
  simp only [UnpackedFloat.shiftToTargetExponent, UnpackedFloat.shiftToExponent,
    UnpackedFloat.ExtendedMantissa.ofMantissaAndAccuracy, hsame, hfits, hamount, shiftRight_zeros,
    Int.sub_add_cancel]

/-- A magnitude that fits is the same after rounding. -/
theorem roundWithAccuracy_zeros (s : UnpackedFloat.Sign) {m : Nat} {e : Int} (hpos : 0 < m)
    (hfits : Format.binary64.targetExponent (totalExponent m e) = e) (n : Nat) :
    UnpackedFloat.roundWithAccuracy Format.binary64 s (m * 2 ^ n) (e - n) .exact =
      .finite s m e hpos := by
  have hfirst := shiftToTargetExponent_zeros hpos hfits n
  have hsecond := shiftToTargetExponent_zeros hpos hfits 0
  simp only [Nat.pow_zero, Nat.mul_one, Int.ofNat_zero, Int.sub_zero] at hsecond
  simp [UnpackedFloat.roundWithAccuracy, hfirst, hsecond,
    UnpackedFloat.ExtendedMantissa.roundedMantissa, UnpackedFloat.ExtendedMantissa.accuracy,
    UnpackedFloat.Accuracy.roundToNearestEven, Nat.ne_of_gt hpos]

theorem sign_mul_comm (s s' : UnpackedFloat.Sign) : s * s' = s' * s := by
  cases s <;> cases s' <;> rfl

theorem times_comm (x y : Float) : x * y = y * x := by
  have hswap : ∀ u v : UnpackedFloat,
      UnpackedFloat.mul Format.binary64 u v = UnpackedFloat.mul Format.binary64 v u := by
    intro u v
    cases u <;> cases v <;>
      simp only [UnpackedFloat.mul, sign_mul_comm, Nat.mul_comm, Int.add_comm]
  exact congrArg packed (hswap (unpacked x) (unpacked y))

/-- **One is neutral** for products, to the last bit. -/
theorem times_one (x : Float) : x * 1.0 = x := by
  have hone : unpacked 1.0 = .finite .positive (2 ^ 52) (-(52 : Nat)) (by decide) := rfl
  have hsign : ∀ s : UnpackedFloat.Sign, s * .positive = s := fun s => by cases s <;> rfl
  have hproduct : UnpackedFloat.mul Format.binary64 (unpacked x) (unpacked 1.0) = unpacked x := by
    rw [hone]
    cases h : unpacked x with
    | notANumber => rfl
    | infinity s => exact congrArg UnpackedFloat.infinity (hsign s)
    | zero s => exact congrArg UnpackedFloat.zero (hsign s)
    | finite s m e hpos =>
      -- One has 52 zeros behind its leading bit, and rounding shifts them out again.
      rw [UnpackedFloat.mul, hsign, ← Int.sub_eq_add_neg]
      exact roundWithAccuracy_zeros s hpos (targetExponent_of_unpacked h) 52
  exact (congrArg packed hproduct).trans (packed_unpacked x)

theorem one_times (x : Float) : 1.0 * x = x :=
  (times_comm _ _).trans (times_one x)

/-- Only one equals one. -/
theorem eq_one_of_beq {x : Float} (h : (x == 1.0) = true) : x = 1.0 := by
  rcases alike_iff.1 (.inr h : Alike x 1.0) with hsame | ⟨-, sign, hzero⟩
  · exact hsame
  · cases hzero

/-! ## Zero -/

/-- An operation that gives one of the unpacked numbers back, or else a zero for a zero. -/
theorem alike_of_onUnpacked (operator : Arithmetic) {a b x : Float}
    (h : operator.onUnpacked (unpacked a) (unpacked b) = unpacked x ∨
      (∃ sign, operator.onUnpacked (unpacked a) (unpacked b) = .zero sign) ∧
        ∃ sign, unpacked x = .zero sign) :
    Alike (operator.apply a b) x := by
  have hresult := alike_packed h
  rwa [packed_unpacked, ← operator.apply_eq_packed] at hresult

section Neutral

variable (x : Float) {z : Float} (h : IsZero z)

include h

/-- **Zero is neutral** for sums and differences, up to the sign of a zero. -/
theorem plus_zero : Alike (x + z) x := by
  obtain ⟨sign, hzero⟩ := h
  apply alike_of_onUnpacked .add
  rw [hzero]
  cases unpacked x <;>
    simp [Arithmetic.onUnpacked, UnpackedFloat.add, ← apply_ite UnpackedFloat.zero]

theorem zero_plus : Alike (z + x) x := by
  obtain ⟨sign, hzero⟩ := h
  apply alike_of_onUnpacked .add
  rw [hzero]
  cases unpacked x <;>
    simp [Arithmetic.onUnpacked, UnpackedFloat.add, ← apply_ite UnpackedFloat.zero]

theorem minus_zero : Alike (x - z) x := by
  obtain ⟨sign, hzero⟩ := h
  apply alike_of_onUnpacked .sub
  rw [hzero]
  cases unpacked x <;>
    simp [Arithmetic.onUnpacked, UnpackedFloat.sub, ← apply_ite UnpackedFloat.zero]

end Neutral

/-- **A product of a finite number with zero is a zero.** -/
theorem times_zero {x z : Float} (hfinite : x.isFinite = true) (h : IsZero z) : IsZero (x * z) := by
  obtain ⟨sign, hzero⟩ := h
  have hproduct :
      x * z = packed (UnpackedFloat.mul Format.binary64 (unpacked x) (unpacked z)) := rfl
  change (unpacked x).isFinite = true at hfinite
  rw [hproduct, hzero]
  cases hvalue : unpacked x with
  | notANumber | infinity s => simp [hvalue, UnpackedFloat.isFinite] at hfinite
  | zero s | finite s m e hpos => exact ⟨s * sign, UnpackedFloat.unpack_packedZero⟩

theorem zero_times {x z : Float} (hfinite : x.isFinite = true) (h : IsZero z) : IsZero (z * x) :=
  times_comm x z ▸ times_zero hfinite h

end ChipScript
