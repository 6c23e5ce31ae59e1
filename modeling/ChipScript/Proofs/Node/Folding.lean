import ChipScript.Node.Simplify
import ChipScript.Proofs.Number.ShortestLiteral

/-!
# Folding

An expression of operators over known values has a value of its own, the one that the operators give
on binary64 numbers (`evaluate?`).  Simplification folds such an expression, operator by operator:
each result becomes a literal, or one of the names for infinities and NaN, and the operator above
reads it again.  Nothing is lost in that text (`value?_ofValue`), so the value that is left in the
end is the value of the expression, to the last bit.

Two numbers are equal if and only if their bits are, and there is one NaN.

Main result: `folding_evaluates`.
-/

namespace ChipScript

namespace Node

open Binary64

/-- **The node for a number has that number as its value.** -/
theorem value?_ofValue (value : Float) : (ofValue value).value? = some value := by
  have hback := ofOrdinal_ordinal value
  unfold ofValue
  split
  · next hnan =>
    -- There is one NaN, which its name stands for.
    rw [eq_quietNaN hnan]
    rfl
  · next hnumber =>
    split
    · next hinfinite =>
      rw [hinfinite] at hback
      -- An infinity has a name for each sign.
      cases hnegative : isNegative value with
      | true =>
        rw [← hback, hnegative]
        rfl
      | false =>
        rw [← hback, hnegative]
        rfl
    · next hfinite =>
      -- Any other number is written in digits, which are read back.
      have hbound : ¬ infinity < ordinal value := fun h => hnumber ((isNaN_iff value).2 h)
      exact Literal.read?_write (by omega)

/-! ## Values of expressions -/

/-- Expressions of operators over nodes that have a value. -/
inductive Constant : Node → Prop where
  | value {node : Node} : node.value?.isSome = true → Constant node
  | not {operand : Node} : Constant operand → Constant (.not operand)
  | arithmetic {operator : Arithmetic} {left right : Node} :
      Constant left → Constant right → Constant (.arithmetic operator left right)
  | comparison {operator : Comparison} {left right : Node} :
      Constant left → Constant right → Constant (.comparison operator left right)
  | connective {operator : Connective} {left right : Node} :
      Constant left → Constant right → Constant (.connective operator left right)
  | choice {condition thenValue elseValue : Node} :
      Constant condition → Constant thenValue → Constant elseValue →
      Constant (.choice condition thenValue elseValue)

/-- The value of an expression of operators over known values.  A connective asks which operands are
    true, a negation whether its operand is below one, and a choice whether its condition is other
    than zero. -/
def evaluate? : Node → Option Float
  | not operand => do
    let v ← operand.evaluate?
    return truthValue (v < 1.0)
  | arithmetic operator left right => do
    let a ← left.evaluate?
    let b ← right.evaluate?
    return operator.apply a b
  | comparison operator left right => do
    let a ← left.evaluate?
    let b ← right.evaluate?
    return truthValue (operator.holds a b)
  | connective operator left right => do
    let a ← left.evaluate?
    let b ← right.evaluate?
    return truthValue (operator.apply (isTrue a) (isTrue b))
  | choice condition thenValue elseValue => do
    let v ← condition.evaluate?
    let a ← thenValue.evaluate?
    let b ← elseValue.evaluate?
    return if v != 0.0 then a else b
  | node => node.value?

theorem evaluate?_of_value? {node : Node} {v : Float} (h : node.value? = some v) :
    node.evaluate? = some v := by
  cases node with
  | number text | constant name | hash text => exact h
  | _ => cases h

/-- A node that has a value is left as it is. -/
theorem simplify_of_value? {node : Node} {v : Float} (h : node.value? = some v) :
    node.simplify = node := by
  cases node with
  | number text | constant name | hash text => rfl
  | _ => cases h

/-! ## One operator -/

theorem value?_foldNot {operand : Node} {v : Float} (h : operand.value? = some v) :
    (foldNot operand).value? = some (truthValue (v < 1.0)) := by
  simp only [foldNot, h, value?_ofValue]

section Operands

variable {left right : Node} {a b : Float} (h : left.value? = some a) (h' : right.value? = some b)

include h h'

theorem value?_foldArithmetic (operator : Arithmetic) :
    (foldArithmetic operator left right).value? = some (operator.apply a b) := by
  simp only [foldArithmetic, h, h', value?_ofValue]

theorem value?_foldComparison (operator : Comparison) :
    (foldComparison operator left right).value? = some (truthValue (operator.holds a b)) := by
  simp only [foldComparison, h, h', value?_ofValue]

theorem value?_foldConnective (operator : Connective) :
    (foldConnective operator left right).value? =
      some (truthValue (operator.apply (isTrue a) (isTrue b))) := by
  simp only [foldConnective, h, h', value?_ofValue]

theorem value?_foldChoice {condition : Node} {v : Float} (hknown : condition.value? = some v) :
    (foldChoice condition left right).value? = some (if v != 0.0 then a else b) := by
  simp only [foldChoice, hknown]
  split
  · exact h
  · exact h'

end Operands

end Node

open Node

/-- **Folding evaluates**: an expression of operators over known values is simplified to one node,
    whose value is the value of the expression. -/
theorem folding_evaluates {expression : Node} (hconstant : expression.Constant) :
    ∃ v, expression.evaluate? = some v ∧ expression.simplify.value? = some v := by
  -- The parts have been folded to nodes with the values of the parts, and one operator is left.
  induction hconstant with
  | value hknown =>
    obtain ⟨v, hvalue⟩ := Option.isSome_iff_exists.1 hknown
    exact ⟨v, evaluate?_of_value? hvalue, by rw [simplify_of_value? hvalue, hvalue]⟩
  | not _ ih =>
    obtain ⟨v, hvalue, hfolded⟩ := ih
    exact ⟨_, by simp [evaluate?, hvalue], value?_foldNot hfolded⟩
  | arithmetic _ _ ih ih' =>
    obtain ⟨a, hvalue, hfolded⟩ := ih
    obtain ⟨b, hvalue', hfolded'⟩ := ih'
    exact ⟨_, by simp [evaluate?, hvalue, hvalue'], value?_foldArithmetic hfolded hfolded' _⟩
  | comparison _ _ ih ih' =>
    obtain ⟨a, hvalue, hfolded⟩ := ih
    obtain ⟨b, hvalue', hfolded'⟩ := ih'
    exact ⟨_, by simp [evaluate?, hvalue, hvalue'], value?_foldComparison hfolded hfolded' _⟩
  | connective _ _ ih ih' =>
    obtain ⟨a, hvalue, hfolded⟩ := ih
    obtain ⟨b, hvalue', hfolded'⟩ := ih'
    exact ⟨_, by simp [evaluate?, hvalue, hvalue'], value?_foldConnective hfolded hfolded' _⟩
  | choice _ _ _ ihc ih ih' =>
    obtain ⟨v, hknown, hcondition⟩ := ihc
    obtain ⟨a, hvalue, hfolded⟩ := ih
    obtain ⟨b, hvalue', hfolded'⟩ := ih'
    exact ⟨_, by simp [evaluate?, hknown, hvalue, hvalue'],
      value?_foldChoice hfolded hfolded' hcondition⟩

/-- `((!nan || $FF == 255) ? epsilon * 3 : pi) * (1 / (1 / (0 * -3)))`: a NaN, a magnitude below the
    normal ones, an infinity and a zero with a sign are written and read on the way. -/
def borderExpression : Node :=
  .arithmetic .mul
    (.choice
      (.connective .or (.not (.constant "nan"))
        (.comparison .equal (.number "$FF") (.number "255")))
      (.arithmetic .mul (.constant "epsilon") (.number "3")) (.constant "pi"))
    (.arithmetic .div (.number "1")
      (.arithmetic .div (.number "1") (.arithmetic .mul (.number "0") (.number "-3"))))

theorem folding_evaluates_border :
    borderExpression.Constant ∧ borderExpression.evaluate? = some (Binary64.ofOrdinal true 0) ∧
    borderExpression.simplify.value? = some (Binary64.ofOrdinal true 0) := by
  have hconstant : borderExpression.Constant := by
    apply Constant.arithmetic
    · apply Constant.choice
      · exact .connective (.not (.value rfl)) (.comparison (.value rfl) (.value rfl))
      · exact .arithmetic (.value rfl) (.value rfl)
      · exact .value rfl
    · apply Constant.arithmetic (.value rfl)
      exact .arithmetic (.value rfl) (.arithmetic (.value rfl) (.value rfl))
  -- The value is computed; that it is the value of the folded node is the theorem.
  have hvalue : borderExpression.evaluate? = some (Binary64.ofOrdinal true 0) := by decide +kernel
  obtain ⟨v, hvalue', hfolded⟩ := folding_evaluates hconstant
  rw [hvalue] at hvalue'
  cases hvalue'
  exact ⟨hconstant, hvalue, hfolded⟩

end ChipScript
