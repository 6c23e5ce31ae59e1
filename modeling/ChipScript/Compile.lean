import ChipScript.Chip.Statement
import ChipScript.Node.Equality
import ChipScript.Node.Printer
import ChipScript.Node.Simplify
import ChipScript.Parser.Statement

/-!
# Compilation

From the text of a script to the text of its assembly.
-/

namespace ChipScript

/-- Why a script has no assembly. -/
inductive CompileError where
  | lex (error : LexError)
  | parse (error : ParseError)
  | code (error : CodeError)
deriving DecidableEq, Repr

/-- The error as it is shown. -/
def CompileError.message : CompileError → String
  | lex error => error.message
  | parse error => error.message
  | code error => error.message

/-- The script that tokens form. -/
def Program.ofTokens (tokens : List PlacedToken) : Except ParseError Program :=
  match Parser.program.run (.ofTokens tokens) with
  | .ok program _ => .ok program
  | .error error _ => .error error

/-- The script that a text forms. -/
def Program.ofSource (source : String) : Except CompileError Program :=
  match tokenize source with
  | .ok tokens => (Program.ofTokens tokens).mapError .parse
  | .error error => .error (.lex error)

/-- The assembly of a script. -/
def Program.assembly (program : Program) : Except CompileError String :=
  match program.code with
  | .ok code => (assemble code).mapError .code
  | .error error => .error (.code error)

/-- How a script is compiled. -/
structure CompileOptions where
  /-- Whether the script is simplified first. -/
  simplify : Bool := true
deriving DecidableEq, Repr

/-- The script that code is generated for. -/
def CompileOptions.prepare (options : CompileOptions) (program : Program) : Program :=
  if options.simplify then program.simplify else program

/-- The assembly for the text of a script. -/
def compile (source : String) (options : CompileOptions) : Except CompileError String :=
  match Program.ofSource source with
  | .ok program => (options.prepare program).assembly
  | .error error => .error error

end ChipScript
