/-!
# Operators

The operators that join two values: arithmetic, comparisons and logical connectives, with their
spelling in scripts and their meaning on binary64 numbers.  The chip has an instruction for each, so
the same types name the instructions.
-/

namespace ChipScript

/-! ## The operators -/

/-- The arithmetic operators. -/
inductive Arithmetic where
  | add
  | sub
  | mul
  | div
deriving DecidableEq, Repr

/-- The six comparisons. -/
inductive Comparison where
  | equal
  | notEqual
  | less
  | lessEqual
  | greater
  | greaterEqual
deriving DecidableEq, Repr

/-- The logical connectives. -/
inductive Connective where
  | and
  | or
deriving DecidableEq, Repr

/-! ## Spelling and meaning -/

namespace Arithmetic

/-- An operator as it is written between its operands. -/
def spelling : Arithmetic → String
  | add => "+"
  | sub => "-"
  | mul => "*"
  | div => "/"

/-- The value of an operation. -/
def apply : Arithmetic → Float → Float → Float
  | add, a, b => a + b
  | sub, a, b => a - b
  | mul, a, b => a * b
  | div, a, b => a / b

end Arithmetic

namespace Comparison

/-- A comparison as it is written between its operands. -/
def spelling : Comparison → String
  | equal => "=="
  | notEqual => "!="
  | less => "<"
  | lessEqual => "<="
  | greater => ">"
  | greaterEqual => ">="

/-- The comparison that holds of ordered numbers exactly when this one does not. -/
def inverse : Comparison → Comparison
  | equal => notEqual
  | notEqual => equal
  | less => greaterEqual
  | lessEqual => greater
  | greater => lessEqual
  | greaterEqual => less

/-- Whether a comparison holds.  With a NaN only `notEqual` does. -/
def holds : Comparison → Float → Float → Bool
  | equal, a, b => a == b
  | notEqual, a, b => a != b
  | less, a, b => a < b
  | lessEqual, a, b => a ≤ b
  | greater, a, b => b < a
  | greaterEqual, a, b => b ≤ a

@[simp] theorem inverse_inverse (c : Comparison) : c.inverse.inverse = c := by
  cases c <;> rfl

end Comparison

namespace Connective

/-- A connective as it is written between its operands. -/
def spelling : Connective → String
  | and => "&&"
  | or => "||"

/-- The truth of a compound from the truth of its parts. -/
def apply : Connective → Bool → Bool → Bool
  | and, a, b => a && b
  | or, a, b => a || b

end Connective

end ChipScript
