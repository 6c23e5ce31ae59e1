import ChipScript.Node.Value
import ChipScript.Parser.Basic

/-!
# Reading expressions

One parser per level of precedence, from the operands up: products, sums, negation, comparisons,
connectives and choices.  The levels take the parser for a whole expression as a parameter, which
`expressionWithin` supplies.
-/

namespace ChipScript.Parser

/-! ## Devices -/

/-- An argument of a device configuration. -/
inductive DeviceArgument where
  | name (name : String)
  | text (text : String)
deriving DecidableEq, Repr

/-- The most arguments that a device configuration takes. -/
def maxDeviceArguments : Nat := 3

/-- A bare or quoted name. -/
def deviceArgument? : Token → Option DeviceArgument
  | .identifier name => some (.name name)
  | .string text => some (.text text)
  | _ => none

/-- Device arguments with commas between them, `room` at most. -/
def deviceArguments (position : Position) : (room : Nat) → Parser (List DeviceArgument)
  | 0 => throw (.tooManyDeviceArguments position)
  | room + 1 => do
    let first ← expect deviceArgument? .deviceArgument
    if ← accept (.symbol .comma) then
      return first :: (← deviceArguments position room)
    else return [first]

/-- Whether a name is that of a pin: `d` and one of the digits, or `db`. -/
def isPin (name : String) : Bool :=
  match name.toList with
  | ['d', c] => c.isDigit || c == 'b'
  | _ => false

/-- The devices that the arguments after the type name. -/
def addressing : List DeviceArgument → Except DeviceFault Addressing
  | [] => .error .missingAddress
  | .name name :: rest =>
    match isPin name, rest with
    | true, [] => .ok (.pin name)
    | true, _ :: _ => .error .pinWithMode
    | false, [] =>
      match BatchMode.ofName? name with
      | some mode => .ok (.batch mode)
      | none => .error (.unknownAddress name)
    | false, _ :: _ => .error .nameNotQuoted
  | .text name :: .name mode :: _ =>
    match BatchMode.ofName? mode with
    | some mode => .ok (.namedBatch name mode)
    | none => .error (.unknownMode mode)
  | .text _ :: _ => .error .nameWithoutMode

/-- The device configuration with the given arguments. -/
def deviceConfig : List DeviceArgument → Except DeviceFault DeviceConfig
  | [] => .error .missingAddress
  | .name deviceType :: rest => (addressing rest).map fun a => ⟨deviceType, a⟩
  | .text deviceType :: rest => (addressing rest).map fun a => ⟨deviceType, a⟩

/-- A device configuration, whose keyword stood at `position`. -/
def device (position : Position) : Parser Node := do
  expectSymbol .leftParen
  let arguments ← deviceArguments position maxDeviceArguments
  expectSymbol .rightParen
  match deviceConfig arguments with
  | .ok config => return .device config
  | .error fault => throw (.malformedDevice fault position)

/-! ## Operands -/

/-- The literal for a number after a minus sign.  Marked numbers become decimals, since a
sign in front of a mark is no literal. -/
def negated (text : String) : Node :=
  match text.toList, Literal.read? text with
  | '$' :: _, some value => .ofValue (-value)
  | '%' :: _, some value => .ofValue (-value)
  | _, _ => .number ("-" ++ text)

/-- What holds of constants and of numbers holds of the literal for a number after a minus sign. -/
@[elab_as_elim]
theorem negated_cases {motive : Node → Prop} (text : String)
    (hconstant : ∀ name, motive (.constant name)) (hnumber : ∀ text, motive (.number text)) :
    motive (negated text) := by
  unfold negated
  split
  · exact Node.ofValue_cases _ hconstant hnumber
  · exact Node.ofValue_cases _ hconstant hnumber
  · exact hnumber _

/-- Expressions with commas between them, at most `bound`. -/
def expressions (expression : Parser Node) : (bound : Nat) → Parser (List Node)
  | 0 => unexpected .expression
  | bound + 1 => do
    let first ← expression
    if ← accept (.symbol .comma) then
      return first :: (← expressions expression bound)
    else return [first]

/-- The arguments of a call, whose opening parenthesis has been read. -/
def arguments (expression : Parser Node) : Parser (List Node) := do
  match (← peek?).map PlacedToken.token with
  | some (.symbol .rightParen) =>
    advance
    return []
  | _ =>
    let list ← expressions expression (← remaining)
    expectSymbol .rightParen
    return list

/-- The index and the logic type that may follow a name.  An index needs a logic type. -/
def suffix (expression : Parser Node) (name : String) (position : Position) :
    Parser (Option Node × Option String) := do
  let index ← if ← accept (.symbol .leftBracket) then do
      let index ← expression
      expectSymbol .rightBracket
      pure (some index)
    else pure none
  let property ← if ← accept (.symbol .dot) then some <$> expect identifier? .logicType
    else pure none
  if index.isSome && property.isNone then throw (.indexWithoutProperty name position)
  return (index, property)

/-- What a name that has been read stands for: a call before a parenthesis, else a constant, a
variable or a device. -/
def named (expression : Parser Node) (name : String) (position : Position) : Parser Node := do
  if (← peek?).any fun t => t.token = .symbol .leftParen then
    match Vocabulary.functionArity? name with
    | some arity =>
      advance
      let list ← arguments expression
      checkArity name arity list.length position
      return .call name list
    | none =>
      if Vocabulary.isCommand name then
        throw (.unexpectedToken .expression (.identifier name) position)
      else throw (.unknownFunction name position)
  else if Vocabulary.isConstant name then return .constant name
  else if ← isDeclared name then
    let (index, property) ← suffix expression name position
    return .read name index property
  else throw (.undeclared name position)

/-- An operand: a literal, a device, a name with what belongs to it, or an expression in
parentheses. -/
def primary (expression : Parser Node) : Parser Node := do
  match ← peek? with
  | some ⟨.number text, _⟩ =>
    advance
    return .number text
  | some ⟨.symbol .minus, _⟩ =>
    advance
    return negated (← expect numberText? .number)
  | some ⟨.keyword .hash, _⟩ =>
    advance
    expectSymbol .leftParen
    let text ← expect stringText? .string
    expectSymbol .rightParen
    return .hash text
  | some ⟨.keyword .device, position⟩ =>
    advance
    device position
  | some ⟨.symbol .leftParen, position⟩ =>
    advance
    let inner ← expression
    if ← accept (.symbol .rightParen) then return inner
    else throw (.unterminatedGrouping position)
  | some ⟨.identifier name, position⟩ =>
    advance
    named expression name position
  | _ => unexpected .expression

/-! ## Levels of precedence -/

/-- How an operator joins its operands. -/
abbrev Join := Node → Node → Node

/-- Operands joined from the left to `left`, as long as an operator of the level follows. -/
def joinFrom (operator? : Token → Option Join) (operand : Parser Node) :
    (bound : Nat) → (left : Node) → Parser Node
  | 0, left => return left
  | bound + 1, left => do
    match ← accept? operator? with
    | some join =>
      let right ← operand
      joinFrom operator? operand bound (join left right)
    | none => return left

/-- Operands joined from the left by the operators of one level. -/
def joined (operator? : Token → Option Join) (operand : Parser Node) : Parser Node := do
  let first ← operand
  joinFrom operator? operand (← remaining) first

/-- The operators of products. -/
def productOperator? : Token → Option Join
  | .symbol .star => some (.arithmetic .mul)
  | .symbol .slash => some (.arithmetic .div)
  | _ => none

/-- The operators of sums. -/
def sumOperator? : Token → Option Join
  | .symbol .plus => some (.arithmetic .add)
  | .symbol .minus => some (.arithmetic .sub)
  | _ => none

/-- The operators of comparisons. -/
def comparisonOperator? : Token → Option Join
  | .symbol .equal => some (.comparison .equal)
  | .symbol .notEqual => some (.comparison .notEqual)
  | .symbol .less => some (.comparison .less)
  | .symbol .lessEqual => some (.comparison .lessEqual)
  | .symbol .greater => some (.comparison .greater)
  | .symbol .greaterEqual => some (.comparison .greaterEqual)
  | _ => none

/-- The connectives, which share one level. -/
def connectiveOperator? : Token → Option Join
  | .symbol .both => some (.connective .and)
  | .symbol .either => some (.connective .or)
  | _ => none

/-- A product of operands. -/
def product (expression : Parser Node) : Parser Node :=
  joined productOperator? (primary expression)

/-- A sum of products. -/
def sum (expression : Parser Node) : Parser Node :=
  joined sumOperator? (product expression)

/-- A sum after at most `bound` negations, each of which takes in the whole of it. -/
def negation (expression : Parser Node) : (bound : Nat) → Parser Node
  | 0 => sum expression
  | bound + 1 => do
    if ← accept (.symbol .bang) then
      return .not (← negation expression bound)
    else sum expression

/-- A comparison of sums and negations. -/
def comparison (expression : Parser Node) : Parser Node :=
  joined comparisonOperator? do negation expression (← remaining)

/-- A connection of comparisons. -/
def connective (expression : Parser Node) : Parser Node :=
  joined connectiveOperator? (comparison expression)

/-- A connection, or the choice that it decides. -/
def choice (expression : Parser Node) : Parser Node := do
  let condition ← connective expression
  if ← accept (.symbol .question) then
    let thenValue ← expression
    expectSymbol .colon
    let elseValue ← expression
    return .choice condition thenValue elseValue
  else return condition

/-- An expression with at most `bound` levels of nesting. -/
def expressionWithin : (bound : Nat) → Parser Node
  | 0 => unexpected .expression
  | bound + 1 => choice (expressionWithin bound)

/-- An expression. -/
def expression : Parser Node := do
  expressionWithin (← remaining)

/-- An expression from the token on that reading has reached.  Before the first token none has been
    reached, and there is no expression. -/
def expressionHere : Parser Node := do
  if (← get).started then expression else throw (.unexpectedEnd .expression)

theorem expressionHere_of_started {s : ParserState} (h : s.started = true) :
    expressionHere s = expression s := by
  show (if s.started then expression else throw (.unexpectedEnd .expression)) s = _
  rw [if_pos h]

/-- The expression that a text begins with: the first token becomes the current one, and the
    expression is read from there (`standaloneExpression_eq`). -/
def standaloneExpression : Parser Node := do
  modify fun s => { s with started := true }
  expression

/-- An expression that stands on its own is read with the first token as the current one. -/
theorem standaloneExpression_eq (s : ParserState) :
    standaloneExpression s = expressionHere { s with started := true } :=
  rfl

end ChipScript.Parser
