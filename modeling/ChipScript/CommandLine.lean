import ChipScript.Compile

/-!
# Command line

What a run of the compiler writes, as a function of its arguments and of the file that they name.
Assembly is written line by line: a line that has been written stays, whatever comes after it.
-/

namespace ChipScript.CommandLine

/-- What to do with which file. -/
structure Request where
  path : String
  /-- Lists the tokens. -/
  lex : Bool := false
  /-- Prints the script as it was read. -/
  parse : Bool := false
  /-- Prints the script that code would be generated for. -/
  simplify : Bool := false
  /-- Leaves the script as it was read. -/
  noSimplify : Bool := false
deriving DecidableEq, Repr

/-- What a run writes, and the status that it ends with. -/
structure Outcome where
  status : UInt32
  stdout : String
  stderr : String
deriving DecidableEq, Repr

/-! ## Arguments -/

/-- A request with one flag more, if there is such a flag. -/
def Request.withFlag? (request : Request) : String → Option Request
  | "--lex" => some { request with lex := true }
  | "--parse" => some { request with parse := true }
  | "--simplify" => some { request with simplify := true }
  | "--no-simplify" => some { request with noSimplify := true }
  | _ => none

/-- Whether an argument is a flag. -/
def isFlag (argument : String) : Bool :=
  "--".toList.isPrefixOf argument.toList

/-- The request that arguments make: one path, and flags before or after it. -/
def Request.ofArguments? (arguments : List String) : Option Request :=
  match arguments.partition isFlag with
  | (flags, [path]) => flags.foldlM Request.withFlag? { path }
  | _ => none

/-! ## Runs -/

/-- A run that writes its result. -/
def Outcome.success (text : String) : Outcome := ⟨0, text, ""⟩

/-- A run that says what went wrong. -/
def Outcome.failure (message : String) : Outcome := ⟨1, "", "ic10c: " ++ message ++ "\n"⟩

/-- A run that first writes a text. -/
def Outcome.after (outcome : Outcome) (text : String) : Outcome :=
  { outcome with stdout := text ++ outcome.stdout }

/-- The run that writes code, up to the first instruction that cannot be written. -/
def Outcome.ofCode : List Instruction → Outcome
  | [] => .success ""
  | instruction :: rest =>
    match instruction.text with
    | .ok text => (Outcome.ofCode rest).after text
    | .error error => .failure error.message

/-- How the script is compiled. -/
def Request.options (request : Request) : CompileOptions :=
  { simplify := !request.noSimplify }

/-- The run for a script that has been read. -/
def Request.runScript (request : Request) (program : Program) : Outcome :=
  if request.parse then .success program.text
  else
    let prepared := request.options.prepare program
    if request.simplify then .success prepared.text
    else
      match prepared.code with
      | .ok code => .ofCode code
      | .error error => .failure error.message

/-- The run for the text of a script. -/
def Request.runSource (request : Request) (source : String) : Outcome :=
  match tokenize source with
  | .error error => .failure error.message
  | .ok tokens =>
    if request.lex then .success (String.join (tokens.map PlacedToken.listing))
    else
      match Program.ofTokens tokens with
      | .ok program => request.runScript program
      | .error error => .failure error.message

/-- A run, given the content of the file if there is one at the path. -/
def Request.run (request : Request) (content : Option ByteArray) : Outcome :=
  match content with
  | none => .failure ("file not found: " ++ request.path)
  | some bytes =>
    match String.fromUTF8? bytes with
    | none => .failure "stream did not contain valid UTF-8"
    | some source => request.runSource source

end ChipScript.CommandLine
