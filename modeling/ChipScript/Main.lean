import ChipScript.CommandLine

/-!
# The compiler as a program

Reads the file, lets `CommandLine.Request.run` decide what to write, and writes it.
-/

namespace ChipScript.CommandLine

/-- The content of the file at a path, if there is one that can be read. -/
def contentOf (path : String) : IO (Option ByteArray) :=
  try
    return some (← IO.FS.readBinFile path)
  catch _ =>
    return none

/-- Writes what a run writes. -/
def perform (outcome : Outcome) : IO UInt32 := do
  IO.print outcome.stdout
  IO.eprint outcome.stderr
  return outcome.status

/-- What is said of arguments that make no request. -/
def usage : String :=
  "expected one path and any of --lex, --parse, --simplify, --no-simplify"

/-- One run of the compiler. -/
def runWith (arguments : List String) : IO UInt32 := do
  match Request.ofArguments? arguments with
  | some request => perform (request.run (← contentOf request.path))
  | none => perform (.failure usage)

end ChipScript.CommandLine

/-- The entry point. -/
def main (arguments : List String) : IO UInt32 :=
  ChipScript.CommandLine.runWith arguments
