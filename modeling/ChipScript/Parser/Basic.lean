import ChipScript.Node.Basic
import ChipScript.Token.Basic

/-!
# Parser state

A parser reads tokens from the front of a list and keeps, beside them, the names declared so far and
the number of loops around the place it has reached.  Its state is kept when it fails, so that
reading can go on after an error.

Every parser below leaves a list of tokens that ends the one it was given.  Recursion is bounded by
the number of tokens that are left: between one call and the next inside it a token is always taken,
so that a bound of zero is only met where no token is left.
-/

namespace ChipScript

/-! ## Errors -/

/-- What a parser looked for when it found something else. -/
inductive Expectation where
  | symbol (sign : Symbol)
  | statement
  | expression
  | variableName
  | logicType
  | deviceArgument
  | number
  | string
deriving DecidableEq, Repr

/-- What was looked for, as messages say it. -/
def Expectation.text : Expectation → String
  | symbol sign => "'" ++ sign.spelling ++ "'"
  | statement => "statement"
  | expression => "expression"
  | variableName => "variable name"
  | logicType => "logic type"
  | deviceArgument => "device argument"
  | number => "number"
  | string => "string"

/-- Why the arguments of a device configuration name no devices. -/
inductive DeviceFault where
  | missingAddress
  | pinWithMode
  | unknownMode (mode : String)
  | nameWithoutMode
  | unknownAddress (name : String)
  | nameNotQuoted
deriving DecidableEq, Repr

/-- The fault as messages say it. -/
def DeviceFault.text : DeviceFault → String
  | missingAddress => "missing device address"
  | pinWithMode => "a port address takes no batch mode"
  | unknownMode mode => "unknown batch mode `" ++ mode ++ "`"
  | nameWithoutMode => "a device name must be followed by a batch mode"
  | unknownAddress name => "`" ++ name ++ "` is neither a port nor a batch mode"
  | nameNotQuoted => "expected a port, a batch mode, or a name and a batch mode"

/-- Why tokens are no script. -/
inductive ParseError where
  | unexpectedToken (expected : Expectation) (found : Token) (position : Position)
  | unexpectedEnd (expected : Expectation)
  | undeclared (name : String) (position : Position)
  | redeclared (name : String) (position : Position)
  | malformedDevice (fault : DeviceFault) (position : Position)
  | tooManyDeviceArguments (position : Position)
  | unterminatedGrouping (position : Position)
  | arityMismatch (name : String) (expected found : Nat) (position : Position)
  | indexWithoutProperty (name : String) (position : Position)
  | unknownFunction (name : String) (position : Position)
  | controlOutsideLoop (kind : LoopControl) (position : Position)
deriving DecidableEq, Repr

/-- The error as it is shown. -/
def ParseError.message : ParseError → String
  | unexpectedToken expected found position =>
    position.text ++ ": unexpected token " ++
      found.describe ++ " (expected " ++ expected.text ++ ")"
  | unexpectedEnd expected => "unexpected end of input (expected " ++ expected.text ++ ")"
  | undeclared name position => position.text ++ ": identifier not declared: " ++ name
  | redeclared name position => position.text ++ ": identifier already declared: " ++ name
  | malformedDevice fault position =>
    position.text ++ ": malformed device configuration: " ++ fault.text
  | tooManyDeviceArguments position =>
    position.text ++ ": too many arguments for device configuration"
  | unterminatedGrouping position => position.text ++ ": unterminated grouping, expected ')'"
  | arityMismatch name expected found position =>
    position.text ++ ": `" ++ name ++ "` takes " ++ toString expected ++ " argument(s), got " ++
      toString found
  | indexWithoutProperty name position =>
    position.text ++ ": index on `" ++ name ++ "` requires a logic type"
  | unknownFunction name position => position.text ++ ": unknown function: " ++ name
  | controlOutsideLoop kind position =>
    position.text ++ ": `" ++ kind.keyword ++ "` statement not within loop"

/-! ## State -/

/-- The tokens that are left, with what reading the others has brought. -/
structure ParserState where
  /-- The tokens that are left. -/
  ahead : List PlacedToken
  /-- The token taken last, unless reading has just started over. -/
  previous : Option PlacedToken
  /-- Whether reading has reached the first token of `ahead`. -/
  started : Bool
  /-- The names declared so far. -/
  declared : List String
  /-- The number of loops around this place. -/
  loopDepth : Nat
deriving DecidableEq, Repr

namespace ParserState

/-- The state before the first token.  Comments are left out. -/
def ofTokens (tokens : List PlacedToken) : ParserState where
  ahead := tokens.filter fun t => !t.token.isComment
  previous := none
  started := false
  declared := []
  loopDepth := 0

/-- The token that reading has reached. -/
def current? (s : ParserState) : Option PlacedToken :=
  if s.started then s.ahead.head? else none

/-- The number of tokens beyond the current one. -/
def waiting (s : ParserState) : Nat :=
  if s.started then s.ahead.tail.length else s.ahead.length

/-- The state after taking a token. -/
def advance (s : ParserState) : ParserState :=
  { s with ahead := s.ahead.tail, previous := s.ahead.head? }

end ParserState

/-- A reader of tokens. -/
abbrev Parser := EStateM ParseError ParserState

namespace Parser

/-! ## Single tokens -/

/-- The next token, which is not taken. -/
def peek? : Parser (Option PlacedToken) :=
  return (← get).ahead.head?

/-- The number of tokens that are left. -/
def remaining : Parser Nat :=
  return (← get).ahead.length

/-- Takes a token. -/
def advance : Parser Unit :=
  modify ParserState.advance

/-- Fails at the next token, or at the end. -/
def unexpected {α : Type} (expected : Expectation) : Parser α := do
  match ← peek? with
  | some t => throw (.unexpectedToken expected t.token t.position)
  | none => throw (.unexpectedEnd expected)

/-- Takes the next token if it is of the right sort, and gives what it stands for. -/
def accept? {α : Type} (sort? : Token → Option α) : Parser (Option α) := do
  match (← peek?).bind fun t => sort? t.token with
  | some a =>
    advance
    return some a
  | none => return none

/-- Takes the next token, which has to be of the right sort. -/
def expect {α : Type} (sort? : Token → Option α) (expected : Expectation) : Parser α := do
  match ← accept? sort? with
  | some a => return a
  | none => unexpected expected

/-- Takes the next token if it is the given one. -/
def accept (token : Token) : Parser Bool :=
  return (← accept? fun t => if t = token then some () else none).isSome

/-- Takes the next token, which has to be the given symbol. -/
def expectSymbol (sign : Symbol) : Parser Unit :=
  expect (fun t => if t = .symbol sign then some () else none) (.symbol sign)

/-- The name of an identifier. -/
def identifier? : Token → Option String
  | .identifier name => some name
  | _ => none

/-- The text of a number. -/
def numberText? : Token → Option String
  | .number text => some text
  | _ => none

/-- The text of a string. -/
def stringText? : Token → Option String
  | .string text => some text
  | _ => none

/-! ## Declarations and loops -/

/-- Whether a name has been declared. -/
def isDeclared (name : String) : Parser Bool :=
  return (← get).declared.contains name

/-- Declares a name. -/
def declareName (name : String) : Parser Unit :=
  modify fun s => { s with declared := name :: s.declared }

/-- Reads with one loop more around, and restores their number whether reading succeeds or fails. -/
def inLoop {α : Type} (body : Parser α) : Parser α := fun s =>
  match body { s with loopDepth := s.loopDepth + 1 } with
  | .ok a t => .ok a { t with loopDepth := t.loopDepth - 1 }
  | .error e t => .error e { t with loopDepth := t.loopDepth - 1 }

/-- A call must have as many arguments as its name asks for. -/
def checkArity (name : String) (expected found : Nat) (position : Position) : Parser Unit :=
  if expected = found then pure () else throw (.arityMismatch name expected found position)

end Parser
end ChipScript
