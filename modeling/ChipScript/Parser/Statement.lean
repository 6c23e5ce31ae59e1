import ChipScript.Parser.Expression
import ChipScript.Token.Lexer

/-!
# Reading statements

Statements and whole scripts.  A name is declared by the statement that declares it and visible
after it, wherever that statement stands; loop controls are only allowed inside the body of a loop.
-/

namespace ChipScript.Parser

/-! ## Simple statements -/

/-- A declaration, whose keyword has been read. -/
def declaration : Parser Node := do
  match ← peek? with
  | some ⟨.identifier name, position⟩ =>
    advance
    if (← isDeclared name) || Vocabulary.isConstant name || Vocabulary.isCommand name then
      throw (.redeclared name position)
    expectSymbol .assign
    let value ← expression
    expectSymbol .semicolon
    declareName name
    return .declare name value
  | _ => unexpected .variableName

/-- The call of a command, whose name has been read. -/
def command (kind : Vocabulary.Command) (position : Position) : Parser Node := do
  expectSymbol .leftParen
  let list ← arguments expression
  checkArity kind.name kind.arity list.length position
  expectSymbol .semicolon
  return .call kind.name list

/-- An assignment, whose first name has been read. -/
def assignment (name : String) (position : Position) : Parser Node := do
  if !(← isDeclared name) then throw (.undeclared name position)
  let (index, property) ← suffix expression name position
  expectSymbol .assign
  let value ← expression
  expectSymbol .semicolon
  return .assign name index property value

/-- A loop control, whose keyword has been read. -/
def loopControl (kind : LoopControl) (position : Position) : Parser Node := do
  if (← get).loopDepth = 0 then throw (.controlOutsideLoop kind position)
  expectSymbol .semicolon
  return .control kind

/-- A device configuration as a statement, whose keyword has been read. -/
def deviceStatement (position : Position) : Parser Node := do
  let config ← device position
  expectSymbol .semicolon
  return config

/-- A condition in parentheses. -/
def condition : Parser Node := do
  expectSymbol .leftParen
  let condition ← expression
  expectSymbol .rightParen
  return condition

/-! ## Compound statements -/

/-- The statements of a block and its closing brace; at most `bound` statements. -/
def blockBody (statement : Parser Node) : (bound : Nat) → Parser (List Node)
  | 0 => unexpected (.symbol .rightBrace)
  | bound + 1 => do
    match (← peek?).map PlacedToken.token with
    | some (.symbol .rightBrace) =>
      advance
      return []
    | none => unexpected (.symbol .rightBrace)
    | _ =>
      let first ← statement
      return first :: (← blockBody statement bound)

mutual

/-- A statement with at most `bound` levels of nesting. -/
def statementWithin : (bound : Nat) → Parser Node
  | 0 => unexpected .statement
  | bound + 1 => do
    match ← peek? with
    | some ⟨.keyword .var, _⟩ =>
      advance
      declaration
    | some ⟨.keyword .loop, _⟩ =>
      advance
      return .loop (← inLoop (statementWithin bound))
    | some ⟨.keyword .whileLoop, _⟩ =>
      advance
      let test ← condition
      return .whileLoop test (← inLoop (statementWithin bound))
    | some ⟨.keyword .ifThen, _⟩ =>
      advance
      branchWithin bound
    | some ⟨.keyword .leave, position⟩ =>
      advance
      loopControl .leave position
    | some ⟨.keyword .again, position⟩ =>
      advance
      loopControl .again position
    | some ⟨.keyword .device, position⟩ =>
      advance
      deviceStatement position
    | some ⟨.symbol .leftBrace, _⟩ =>
      advance
      return .block (← blockBody (statementWithin bound) (← remaining))
    | some ⟨.identifier name, position⟩ =>
      advance
      match Vocabulary.Command.ofName? name with
      | some kind => command kind position
      | none => assignment name position
    | _ => unexpected .statement

/-- The condition and the branches of a choice, whose keyword has been read.  A further condition
makes the other branch a choice of its own. -/
def branchWithin : (bound : Nat) → Parser Node
  | 0 => unexpected (.symbol .leftParen)
  | bound + 1 => do
    let test ← condition
    let thenBranch ← statementWithin bound
    if ← accept (.keyword .elseIf) then
      return .branch test thenBranch (some (← branchWithin bound))
    else if ← accept (.keyword .otherwise) then
      return .branch test thenBranch (some (← statementWithin bound))
    else return .branch test thenBranch none

end

/-- A statement. -/
def statement : Parser Node := do
  statementWithin (← remaining)

/-! ## Scripts -/

/-- The statements up to the end; at most `bound`. -/
def statements : (bound : Nat) → Parser (List Node)
  | 0 => return []
  | bound + 1 => do
    match ← peek? with
    | none => return []
    | some _ =>
      let first ← statement
      return first :: (← statements bound)

/-- Moves to the first token, or past the token at which reading stopped before. -/
def start : Parser Unit :=
  modify fun s => if s.started then s.advance else { s with started := true }

/-- A script, from the next token to the end. -/
def program : Parser Program := do
  start
  statements (← remaining)

end ChipScript.Parser
