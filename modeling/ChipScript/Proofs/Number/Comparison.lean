import ChipScript.Node.Value
import Mathlib

/-!
# Comparisons with a NaN

Two numbers are ordered unless one of them is NaN (`ordering?_eq_none`).  Of ordered numbers exactly
one of a comparison and its inverse holds; with a NaN neither does, unless the two are `==` and
`!=`, which stay opposites (`Comparison.holds_inverse`).
-/

namespace ChipScript

open Float.Model

/-! ## The order of numbers -/

/-- How a number compares with another, if they are ordered. -/
def ordering? (a b : Float) : Option Ordering :=
  a.toModel.unpack.compare b.toModel.unpack

theorem unpacked_compare_swap (a b : UnpackedFloat) :
    b.compare a = (a.compare b).map Ordering.swap := by
  cases a with
  | notANumber => cases b <;> rfl
  | infinity s =>
    cases b with
    | notANumber => cases s <;> rfl
    | infinity s' => cases s <;> cases s' <;> rfl
    | zero s' => cases s <;> rfl
    | finite s' m' e' hpos' => cases s <;> rfl
  | zero s =>
    cases b with
    | notANumber => rfl
    | infinity s' => cases s' <;> rfl
    | zero s' => rfl
    | finite s' m' e' hpos' => cases s' <;> rfl
  | finite s m e hpos =>
    cases b with
    | notANumber => cases s <;> rfl
    | infinity s' => cases s <;> cases s' <;> rfl
    | zero s' => cases s <;> rfl
    | finite s' m' e' hpos' =>
      -- Numbers of one sign are compared by their exponents and then by their mantissas.
      cases s <;> cases s' <;>
        simp [UnpackedFloat.compare, Ordering.swap_then, Int.compare_swap, Nat.compare_swap]

theorem unpacked_compare_eq_none (a b : UnpackedFloat) :
    a.compare b = none ↔ a.isNaN = true ∨ b.isNaN = true := by
  cases a with
  | notANumber => simp [UnpackedFloat.compare, UnpackedFloat.isNaN]
  | infinity s => cases s <;> cases b <;> simp [UnpackedFloat.compare, UnpackedFloat.isNaN]
  | zero s =>
    cases b with
    | infinity s' | finite s' m' e' hpos' =>
      cases s' <;> simp [UnpackedFloat.compare, UnpackedFloat.isNaN]
    | _ => simp [UnpackedFloat.compare, UnpackedFloat.isNaN]
  | finite s m e hpos =>
    cases b with
    | infinity s' | finite s' m' e' hpos' =>
      cases s <;> cases s' <;> simp [UnpackedFloat.compare, UnpackedFloat.isNaN]
    | _ => cases s <;> simp [UnpackedFloat.compare, UnpackedFloat.isNaN]

theorem ordering?_swap (a b : Float) : ordering? b a = (ordering? a b).map Ordering.swap :=
  unpacked_compare_swap _ _

/-- Only NaN is not ordered. -/
theorem ordering?_eq_none {a b : Float} :
    ordering? a b = none ↔ a.isNaN = true ∨ b.isNaN = true :=
  unpacked_compare_eq_none _ _

theorem lt_iff_ordering? {a b : Float} : a < b ↔ ordering? a b = some .lt := by
  show decide ((ordering? a b == some .lt) = true) = true ↔ _
  rw [decide_eq_true_iff, beq_iff_eq]

theorem le_iff_ordering? {a b : Float} : a ≤ b ↔ (ordering? a b).any (·.isLE) = true :=
  decide_eq_true_iff

/-- Two numbers are unordered, or one of them is below the other one or not below it. -/
theorem below_cases (a b : Float) :
    (¬ a < b ∧ ¬ b ≤ a ∧ (a.isNaN || b.isNaN) = true) ∨
    (a < b ∧ ¬ b ≤ a ∧ (a.isNaN || b.isNaN) = false) ∨
    (¬ a < b ∧ b ≤ a ∧ (a.isNaN || b.isNaN) = false) := by
  rw [lt_iff_ordering?, le_iff_ordering?, ordering?_swap a b]
  have hunordered : ordering? a b = none ↔ (a.isNaN || b.isNaN) = true := by
    rw [ordering?_eq_none, Bool.or_eq_true]
  rw [← Bool.not_eq_true, ← hunordered]
  cases ordering? a b with
  | none => simp
  | some order => cases order <;> simp

/-! ## Comparisons and their inverses -/

namespace Comparison

/-- Whether two numbers escape a comparison and its inverse alike. -/
def unordered : Comparison → Float → Float → Bool
  | equal, _, _ => false
  | notEqual, _, _ => false
  | _, a, b => a.isNaN || b.isNaN

/-- **The inverse of a comparison holds where the comparison does not, unless the numbers are
    unordered.** -/
theorem holds_inverse (c : Comparison) (a b : Float) :
    c.inverse.holds a b = (!c.holds a b && !c.unordered a b) := by
  cases c with
  | equal | notEqual => simp [inverse, holds, unordered, bne]
  | less | greaterEqual =>
    simp only [inverse, holds, unordered]
    rcases below_cases a b with
      ⟨hbelow, hleast, hnan⟩ | ⟨hbelow, hleast, hnan⟩ | ⟨hbelow, hleast, hnan⟩ <;>
      rw [hnan] <;> simp [hbelow, hleast]
  | lessEqual | greater =>
    simp only [inverse, holds, unordered]
    rw [Bool.or_comm]
    rcases below_cases b a with
      ⟨hbelow, hleast, hnan⟩ | ⟨hbelow, hleast, hnan⟩ | ⟨hbelow, hleast, hnan⟩ <;>
      rw [hnan] <;> simp [hbelow, hleast]

end Comparison
end ChipScript
