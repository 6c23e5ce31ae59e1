import ChipScript.Node.Basic
import ChipScript.Number.Literal
import ChipScript.Text.Checksum
import ChipScript.Vocabulary

/-!
# Values of literals

The nodes whose value is known without running the script, the number that counts as true, and the
node that stands for a computed number.
-/

namespace ChipScript

/-- Whether a number counts as true where a condition is asked for.  Everything below one is false,
and so is NaN. -/
def isTrue (value : Float) : Bool :=
  (1.0 : Float) ≤ value

/-- The number that stands for a truth value. -/
def truthValue (b : Bool) : Float :=
  if b then 1.0 else 0.0

namespace Node

/-- The value of a number, a named constant or a hash. -/
def value? : Node → Option Float
  | number text => Literal.read? text
  | constant name => Vocabulary.constant? name
  | hash text => some (Binary64.ofInt (Text.checksum text).toInt)
  | _ => none

/-- The value of a number written as such, and not by a name. -/
def literal? : Node → Option Float
  | number text => Literal.read? text
  | _ => none

/-- The node for a number: its shortest literal, or the constant for a number that has none. -/
def ofValue (value : Float) : Node :=
  if value.isNaN then constant "nan"
  else if Binary64.ordinal value = Binary64.infinity then
    if Binary64.isNegative value then constant "ninf" else constant "pinf"
  else number (Literal.write value)

/-- What holds of constants and of numbers holds of the node for a number. -/
@[elab_as_elim]
theorem ofValue_cases {motive : Node → Prop} (value : Float)
    (hconstant : ∀ name, motive (.constant name)) (hnumber : ∀ text, motive (.number text)) :
    motive (ofValue value) := by
  unfold ofValue
  split
  · exact hconstant _
  · split
    · split
      · exact hconstant _
      · exact hconstant _
    · exact hnumber _

/-- Whether a condition is known to hold or known to fail. -/
def truth? (condition : Node) : Option Bool :=
  condition.value?.map isTrue

end Node
end ChipScript
