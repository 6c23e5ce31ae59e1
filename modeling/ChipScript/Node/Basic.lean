import ChipScript.Device
import ChipScript.Operator

/-!
# Syntax trees

A script is a list of nodes.  Statements and expressions share one type: a tree given from outside
may hold a statement where a value is expected, and every pass says what it does with it.
`Node.isStatement` tells the two apart.
-/

namespace ChipScript

/-! ## Loop controls -/

/-- The two ways to leave the body of a loop. -/
inductive LoopControl where
  /-- Ends the loop. -/
  | leave
  /-- Starts its next round. -/
  | again
deriving DecidableEq, Repr

/-- The keyword of a loop control. -/
def LoopControl.keyword : LoopControl → String
  | leave => "break"
  | again => "continue"

/-! ## Nodes -/

/-- Statements and expressions.  A place is a name with an optional index and an optional logic
type; it is written to by `assign` and read by `read`. -/
inductive Node where
  /-- Statements in braces. -/
  | block (body : List Node)
  /-- A declaration with its first value. -/
  | declare (name : String) (value : Node)
  /-- An assignment to a variable or to a logic type of a device. -/
  | assign (name : String) (index : Option Node) (property : Option String) (value : Node)
  /-- A loop that only a loop control ends. -/
  | loop (body : Node)
  /-- A loop with a condition before each round. -/
  | whileLoop (condition : Node) (body : Node)
  /-- A choice between two statements, or between one and nothing. -/
  | branch (condition : Node) (thenBranch : Node) (elseBranch : Option Node)
  /-- A way out of the innermost loop's round. -/
  | control (kind : LoopControl)
  /-- A function or command applied to arguments. -/
  | call (name : String) (arguments : List Node)
  /-- The devices that a variable is to stand for. -/
  | device (config : DeviceConfig)
  /-- A number, by the text of its literal. -/
  | number (text : String)
  /-- A named constant. -/
  | constant (name : String)
  /-- The hash of a text. -/
  | hash (text : String)
  /-- The value of a variable or of a logic type of a device. -/
  | read (name : String) (index : Option Node) (property : Option String)
  /-- Whether a value is false. -/
  | not (operand : Node)
  /-- An arithmetic operation. -/
  | arithmetic (operator : Arithmetic) (left : Node) (right : Node)
  /-- A comparison. -/
  | comparison (operator : Comparison) (left : Node) (right : Node)
  /-- A logical connection. -/
  | connective (operator : Connective) (left : Node) (right : Node)
  /-- A choice between two values. -/
  | choice (condition : Node) (thenValue : Node) (elseValue : Node)

/-- A script, as the list of its statements. -/
abbrev Program := List Node

namespace Node

/-- Whether a node only makes sense as a statement. -/
def isStatement : Node → Bool
  | block _ | declare _ _ | assign _ _ _ _ | loop _ | whileLoop _ _ | branch _ _ _ | control _ =>
    true
  | _ => false

end Node
end ChipScript
