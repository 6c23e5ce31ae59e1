import ChipScript.Chip.Register
import ChipScript.Node.Basic

/-!
# Errors of code generation

Why there is no code for a syntax tree.  Trees that come from a script can only meet some of these;
the others answer trees given from outside.
-/

namespace ChipScript

/-- What the chip has no code for. -/
inductive Unsupported where
  | deviceOutsideDeclaration
  | statementAsValue
  | function (name : String)
deriving DecidableEq, Repr

/-- What is not supported, as messages say it. -/
def Unsupported.text : Unsupported → String
  | deviceOutsideDeclaration => "device configuration outside a variable declaration"
  | statementAsValue => "statement used as a value"
  | function name => "function `" ++ name ++ "`"

/-- Why there is no code for a syntax tree. -/
inductive CodeError where
  | unsupported (what : Unsupported)
  | missingProperty (name : String)
  | propertyOnVariable (name : String)
  | unsupportedDeviceStore (name : String)
  | registersExhausted (first last : Register)
  | registerAlreadyFree (register : Register)
  | registerLeak (count : Nat)
  | controlOutsideLoop (kind : LoopControl)
  | undeclared (name : String)
  | redeclared (name : String)
  | arityMismatch (name : String) (expected found : Nat)
deriving DecidableEq, Repr

/-- The error as it is shown. -/
def CodeError.message : CodeError → String
  | unsupported what => "not supported: " ++ what.text
  | missingProperty name => "missing logic type on device `" ++ name ++ "`"
  | propertyOnVariable name => "`" ++ name ++ "` is not a device, it has no logic types"
  | unsupportedDeviceStore name =>
    "indexed store on named batch device `" ++ name ++ "` is not supported"
  | registersExhausted first last =>
    "no more free registers (" ++ first.text ++ ".." ++ last.text ++ ")"
  | registerAlreadyFree register => "register already freed: " ++ register.text
  | registerLeak count => toString count ++ " register(s) still reserved after code generation"
  | controlOutsideLoop kind => "`" ++ kind.keyword ++ "` statement not within loop"
  | undeclared name => "variable not declared: " ++ name
  | redeclared name => "variable already declared: " ++ name
  | arityMismatch name expected found =>
    "`" ++ name ++ "` takes " ++ toString expected ++ " argument(s), got " ++ toString found

end ChipScript
