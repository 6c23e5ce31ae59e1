import ChipScript.Node.Basic

/-!
# Printing syntax trees

The text of a syntax tree in the language of scripts.  Operations are put in parentheses, so that a
reader needs no precedence, blocks are indented by two blanks a level, and a statement ends where
its semicolon or its closing brace stands.
-/

namespace ChipScript.Node

/-- Where a node is printed: in the place of a statement, at a level of indentation, or in the place
of a value. -/
inductive Place where
  | statement (level : Nat)
  | value
deriving DecidableEq, Repr

/-- The blanks before a line at a level. -/
def indentation (level : Nat) : String :=
  String.ofList (List.replicate (2 * level) ' ')

/-- An expression in its place: one in the place of a statement ends with a semicolon. -/
def Place.finish (place : Place) (text : String) : String :=
  match place with
  | .statement _ => text ++ ";"
  | .value => text

/-- The level of the statements in a place.  A statement in the place of a value starts afresh. -/
def Place.level : Place → Nat
  | .statement level => level
  | .value => 0

/-- An operation in parentheses. -/
def operation (left operator right : String) : String :=
  "(" ++ left ++ " " ++ operator ++ " " ++ right ++ ")"

/-- Whether the text of a node is in parentheses of its own. -/
def isParenthesized : Node → Bool
  | not _ | arithmetic _ _ _ | comparison _ _ _ | connective _ _ _ | choice _ _ _ => true
  | _ => false

/-- A condition in its one pair of parentheses, given its text. -/
def conditionText (condition : Node) (text : String) : String :=
  if condition.isParenthesized then text else "(" ++ text ++ ")"

/-- A logic type after the name that it belongs to. -/
def propertyText : Option String → String
  | some property => "." ++ property
  | none => ""

/-- The text of a device configuration. -/
def deviceText (config : DeviceConfig) : String :=
  let address := match config.addressing with
    | .pin pin => pin
    | .batch mode => mode.name
    | .namedBatch name mode => "\"" ++ name ++ "\", " ++ mode.name
  "Device(" ++ config.deviceType ++ ", " ++ address ++ ")"

mutual

/-- The text of a node in a place. -/
def textIn (place : Place) : Node → String
  | block body =>
    "\x7b\n" ++ linesText (place.level + 1) body ++ indentation place.level ++ "\x7d"
  | declare name value => "var " ++ name ++ " = " ++ textIn .value value ++ ";"
  | assign name index property value =>
    name ++ indexText index ++ propertyText property ++ " = " ++ textIn .value value ++ ";"
  | loop body => "loop " ++ textIn (.statement place.level) body
  | whileLoop condition body =>
    "while " ++ conditionText condition (textIn .value condition) ++ " " ++
      textIn (.statement place.level) body
  | branch condition thenBranch elseBranch =>
    "if " ++ conditionText condition (textIn .value condition) ++ " " ++
      textIn (.statement place.level) thenBranch ++ elseText place.level elseBranch
  | control kind => kind.keyword ++ ";"
  | call name arguments => place.finish (name ++ "(" ++ argumentsText arguments ++ ")")
  | device config => place.finish (deviceText config)
  | number text => place.finish text
  | constant name => place.finish name
  | hash text => place.finish ("HASH(\"" ++ text ++ "\")")
  | read name index property => place.finish (name ++ indexText index ++ propertyText property)
  | not operand => place.finish ("(!" ++ textIn .value operand ++ ")")
  | arithmetic operator left right =>
    place.finish (operation (textIn .value left) operator.spelling (textIn .value right))
  | comparison operator left right =>
    place.finish (operation (textIn .value left) operator.spelling (textIn .value right))
  | connective operator left right =>
    place.finish (operation (textIn .value left) operator.spelling (textIn .value right))
  | choice condition thenValue elseValue =>
    place.finish ("(" ++ textIn .value condition ++ " ? " ++ textIn .value thenValue ++ " : " ++
      textIn .value elseValue ++ ")")

/-- Statements, each on a line of its own. -/
def linesText (level : Nat) : List Node → String
  | [] => ""
  | statement :: rest =>
    indentation level ++ textIn (.statement level) statement ++ "\n" ++ linesText level rest

/-- Arguments, with commas between them. -/
def argumentsText : List Node → String
  | [] => ""
  | [argument] => textIn .value argument
  | argument :: rest => textIn .value argument ++ ", " ++ argumentsText rest

/-- An index in brackets. -/
def indexText : Option Node → String
  | some index => "[" ++ textIn .value index ++ "]"
  | none => ""

/-- The other branch of a choice. -/
def elseText (level : Nat) : Option Node → String
  | some elseBranch => " else " ++ textIn (.statement level) elseBranch
  | none => ""

end

/-- The text of a node on its own: a statement is printed as such, an expression without a
semicolon. -/
def text (node : Node) : String :=
  textIn .value node

end ChipScript.Node

namespace ChipScript

/-- The text of a script, one statement after the other. -/
def Program.text (program : Program) : String :=
  Node.linesText 0 program

end ChipScript
