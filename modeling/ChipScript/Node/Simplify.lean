import ChipScript.Node.Value

/-!
# Simplification

A script is simplified bottom up in one pass: operations on known values are folded, neutral and
absorbing operands are removed, and statements that a known condition decides are replaced by what
is left of them.  Folding uses the operations that give expressions their meaning
(`Arithmetic.apply`, `Comparison.holds`, `Connective.apply`), so that it cannot disagree with them.
-/

namespace ChipScript.Node

/-! ## Rules at the root of an expression -/

/-- An arithmetic operation on at most one known value: a neutral operand is dropped, and a product
with zero is zero.  Only a number written as such counts as an operand here. -/
def simplifyIdentity (operator : Arithmetic) (left right : Node) : Node :=
  let isLeft (n : Float) : Bool := left.literal?.any (· == n)
  let isRight (n : Float) : Bool := right.literal?.any (· == n)
  match operator with
  | .mul =>
    if isRight 1.0 then left
    else if isLeft 1.0 then right
    else if isLeft 0.0 || isRight 0.0 then number "0"
    else arithmetic .mul left right
  | .add =>
    if isRight 0.0 then left
    else if isLeft 0.0 then right
    else arithmetic .add left right
  | .sub => if isRight 0.0 then left else arithmetic .sub left right
  | .div => arithmetic .div left right

/-- An arithmetic operation on simplified operands. -/
def foldArithmetic (operator : Arithmetic) (left right : Node) : Node :=
  match left.value?, right.value? with
  | some a, some b => ofValue (operator.apply a b)
  | _, _ => simplifyIdentity operator left right

/-- A comparison of simplified operands. -/
def foldComparison (operator : Comparison) (left right : Node) : Node :=
  match left.value?, right.value? with
  | some a, some b => ofValue (truthValue (operator.holds a b))
  | _, _ => comparison operator left right

/-- A connection of simplified operands. -/
def foldConnective (operator : Connective) (left right : Node) : Node :=
  match left.value?, right.value? with
  | some a, some b => ofValue (truthValue (operator.apply (isTrue a) (isTrue b)))
  | _, _ => connective operator left right

/-- The negation of a simplified operand.  A NaN is not below one, so that its negation is false
too. -/
def foldNot (operand : Node) : Node :=
  match operand.value? with
  | some v => ofValue (truthValue (v < 1.0))
  | none => not operand

/-- A choice with simplified parts: every value other than zero selects the first. -/
def foldChoice (condition thenValue elseValue : Node) : Node :=
  match condition.value? with
  | some v => if v != 0.0 then thenValue else elseValue
  | none => choice condition thenValue elseValue

/-! ## Expressions -/

mutual

/-- A simplified expression.  Statements, literals and devices stay as they are. -/
def simplify : Node → Node
  | read name index property => read name (simplifyIndex index) property
  | call name arguments => call name (simplifyArguments arguments)
  | not operand => foldNot (simplify operand)
  | arithmetic operator left right => foldArithmetic operator (simplify left) (simplify right)
  | comparison operator left right => foldComparison operator (simplify left) (simplify right)
  | connective operator left right => foldConnective operator (simplify left) (simplify right)
  | choice condition thenValue elseValue =>
    foldChoice (simplify condition) (simplify thenValue) (simplify elseValue)
  | node => node

/-- Simplified arguments. -/
def simplifyArguments : List Node → List Node
  | [] => []
  | argument :: rest => simplify argument :: simplifyArguments rest

/-- A simplified index. -/
def simplifyIndex : Option Node → Option Node
  | none => none
  | some index => some (simplify index)

end

/-! ## Statements -/

/-- What is left of a body: a body that has no effect becomes an empty block. -/
def bodyOf (statement : Option Node) : Node :=
  statement.getD (block [])

mutual

/-- What is left of a statement, or `none` if it has no effect. -/
def simplifyStatement? : Node → Option Node
  | block body =>
    match simplifyStatements body with
    | [] => none
    | statements => some (block statements)
  | declare name value => some (declare name (simplify value))
  | assign name index property value =>
    some (assign name (simplifyIndex index) property (simplify value))
  | loop body => some (loop (bodyOf (simplifyStatement? body)))
  | whileLoop condition body =>
    match (simplify condition).truth? with
    | some true => some (loop (bodyOf (simplifyStatement? body)))
    | some false => none
    | none => some (whileLoop (simplify condition) (bodyOf (simplifyStatement? body)))
  | branch condition thenBranch elseBranch =>
    match (simplify condition).truth? with
    | some true => simplifyStatement? thenBranch
    | some false => simplifyElse? elseBranch
    | none =>
      some (branch (simplify condition) (bodyOf (simplifyStatement? thenBranch))
        (simplifyElse? elseBranch))
  | node => some (simplify node)

/-- What is left of several statements. -/
def simplifyStatements : List Node → List Node
  | [] => []
  | statement :: rest =>
    match simplifyStatement? statement with
    | some left => left :: simplifyStatements rest
    | none => simplifyStatements rest

/-- What is left of the other branch of a choice. -/
def simplifyElse? : Option Node → Option Node
  | none => none
  | some statement => simplifyStatement? statement

end

end ChipScript.Node

namespace ChipScript

/-- A simplified script. -/
def Program.simplify (program : Program) : Program :=
  Node.simplifyStatements program

end ChipScript
