import ChipScript.Chip.Instruction
import ChipScript.Chip.Label
import ChipScript.Chip.RegisterFile
import ChipScript.Node.Value

/-!
# Generators

The state of code generation: the code so far, the registers in use, the labels made, the loops
around, and what the declared names stand for.  The state is kept when generation fails, so that one
generator can be used for several scripts.
-/

namespace ChipScript

/-- The state of code generation. -/
structure Generator where
  /-- The code so far. -/
  code : Array Instruction
  /-- The registers in use. -/
  registers : RegisterFile
  /-- The labels made so far. -/
  labels : LabelCounts
  /-- The loops around the place that has been reached. -/
  loops : LoopStack
  /-- The register of each variable. -/
  variableTable : List (String × Register)
  /-- The devices of each device variable. -/
  deviceTable : List (String × DeviceConfig)

/-- The devices that a load or a store for a configuration reaches. -/
def DeviceConfig.target (config : DeviceConfig) : DeviceTarget :=
  match config.addressing with
  | .pin pin => .pin pin
  | .batch mode => .batch (Text.checksum config.deviceType) mode
  | .namedBatch name mode =>
    .namedBatch (Text.checksum config.deviceType) (Text.checksum name) mode

namespace Generator

/-! ## What is known of names -/

/-- The state before the first script. -/
def empty : Generator where
  code := #[]
  registers := .empty
  labels := .empty
  loops := []
  variableTable := []
  deviceTable := []

/-- The devices that a name stands for. -/
def device? (g : Generator) (name : String) : Option DeviceConfig :=
  g.deviceTable.lookup name

/-- The register of a variable, which has neither an index nor a logic type. -/
def registerOf (g : Generator) (name : String) (index : Option Node) (property : Option String) :
    Except CodeError Register :=
  match g.variableTable.lookup name with
  | none => .error (.undeclared name)
  | some register =>
    if property.isSome || index.isSome then .error (.propertyOnVariable name)
    else .ok register

/-- The operand for a node that needs no code: a literal or a variable. -/
def operand? (g : Generator) : Node → Except CodeError (Option Operand)
  | .number text => .ok (some (.immediate text))
  | .constant name => .ok (some (.immediate name))
  | .hash text => .ok (some (.immediate (Text.checksumText (Text.checksum text))))
  | .read name index property =>
    match g.device? name with
    | some _ => .ok none
    | none => (g.registerOf name index property).map fun r => some (.register r)
  | _ => .ok none

/-- Whether a node is a literal or a plain variable. -/
def isPlain (g : Generator) : Node → Bool
  | .number _ | .constant _ | .hash _ => true
  | .read name none none => (g.device? name).isNone
  | _ => false

/-- Whether a node takes one instruction, whose operands need no code. -/
def isSingleInstruction (g : Generator) : Node → Bool
  | .arithmetic _ left right => g.isPlain left && g.isPlain right
  | .comparison _ left right => g.isPlain left && g.isPlain right
  | .not operand => g.isPlain operand
  | .choice condition thenValue elseValue =>
    g.isPlain condition && g.isPlain thenValue && g.isPlain elseValue
  | .call _ arguments => arguments.all g.isPlain
  | .read _ index _ => index.all g.isPlain
  | _ => false

end Generator

/-! ## Steps -/

/-- A step of code generation. -/
abbrev Gen := EStateM CodeError Generator

namespace Gen

/-- Asks the state. -/
def query {α : Type} (ask : Generator → Except CodeError α) : Gen α := fun g =>
  match ask g with
  | .ok a => .ok a g
  | .error e => .error e g

/-- Appends an instruction. -/
def emit (instruction : Instruction) : Gen Unit :=
  modify fun g => { g with code := g.code.push instruction }

/-- Appends instructions. -/
def emitAll : List Instruction → Gen Unit
  | [] => pure ()
  | instruction :: rest => do
    emit instruction
    emitAll rest

/-- Reserves a register by one of the two rules. -/
def reserveBy (rule : RegisterFile → Except CodeError (Register × RegisterFile)) : Gen Register :=
  fun g =>
    match rule g.registers with
    | .ok (r, registers) => .ok r { g with registers }
    | .error e => .error e g

/-- Reserves a register for a temporary. -/
def reserve : Gen Register :=
  reserveBy RegisterFile.reserve

/-- Reserves a register for a variable. -/
def reserveHigh : Gen Register :=
  reserveBy RegisterFile.reserveHigh

/-- Frees a register. -/
def release (r : Register) : Gen Unit := fun g =>
  match g.registers.release r with
  | .ok registers => .ok () { g with registers }
  | .error e => .error e g

/-- Frees registers, from the first to the last. -/
def releaseAll : List Register → Gen Unit
  | [] => pure ()
  | r :: rest => do
    release r
    releaseAll rest

/-- Makes a label. -/
def newLabel (stem : String) : Gen String := fun g =>
  let (name, labels) := g.labels.next stem
  .ok name { g with labels }

/-- A call must have as many arguments as its name asks for. -/
def checkArity (name : String) (expected found : Nat) : Gen Unit :=
  if expected = found then pure () else throw (.arityMismatch name expected found)

end Gen
end ChipScript
