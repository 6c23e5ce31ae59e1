import ChipScript.Chip.Error
import ChipScript.Text.Checksum

/-!
# Instructions

The instructions of the chip and the lines of assembly that they are written as.
-/

namespace ChipScript

/-! ## Instructions -/

/-- What an instruction reads. -/
inductive Operand where
  | register (register : Register)
  /-- The text of a number, of a named constant or of a hash. -/
  | immediate (text : String)
deriving DecidableEq, Repr

/-- The devices that a load or a store reaches. -/
inductive DeviceTarget where
  | pin (pin : String)
  | batch (typeHash : Int32) (mode : BatchMode)
  | namedBatch (typeHash nameHash : Int32) (mode : BatchMode)
deriving DecidableEq, Repr

/-- The instructions.  The register that an instruction writes is called `dst`. -/
inductive Instruction where
  /-- A place to jump to. -/
  | label (name : String)
  | move (dst : Register) (source : Operand)
  | arithmetic (operator : Arithmetic) (dst : Register) (left right : Operand)
  /-- Writes one if the comparison holds, and zero otherwise. -/
  | compare (comparison : Comparison) (dst : Register) (left right : Operand)
  | bitwise (operator : Connective) (dst : Register) (left right : Operand)
  | select (dst : Register) (condition thenValue elseValue : Operand)
  | jump (target : String)
  /-- Jumps if the comparison holds. -/
  | branch (comparison : Comparison) (left right : Operand) (target : String)
  /-- Moves on by `offset` lines if the comparison holds. -/
  | branchRelative (comparison : Comparison) (left right : Operand) (offset : Int)
  | load (dst : Register) (device : DeviceTarget) (slot : Option Operand) (property : String)
  | store (device : DeviceTarget) (slot : Option Operand) (property : String) (value : Operand)
  | sleep (duration : Operand)
  | yield
  | hcf
  | function (name : String) (dst : Register) (arguments : List Operand)
deriving DecidableEq, Repr

/-! ## Words -/

/-- An operand as it is written in assembly. -/
def Operand.text : Operand → String
  | register r => r.text
  | immediate text => text

/-- The name of an arithmetic instruction. -/
def Arithmetic.mnemonic : Arithmetic → String
  | add => "add"
  | sub => "sub"
  | mul => "mul"
  | div => "div"

/-- The name of a bitwise instruction. -/
def Connective.mnemonic : Connective → String
  | and => "and"
  | or => "or"

/-- The end of the name of an instruction that compares. -/
def Comparison.mnemonic : Comparison → String
  | equal => "eq"
  | notEqual => "ne"
  | less => "lt"
  | lessEqual => "le"
  | greater => "gt"
  | greaterEqual => "ge"

/-! ## Lines -/

/-- Words with one blank between them. -/
def line (words : List String) : String :=
  " ".intercalate words ++ "\n"

namespace Instruction

/-- The words of a load. -/
def loadWords (dst : Register) (device : DeviceTarget) (slot : Option Operand) (property : String) :
    List String :=
  match device, slot with
  | .pin pin, none => ["l", dst.text, pin, property]
  | .pin pin, some slot => ["ls", dst.text, pin, slot.text, property]
  | .batch typeHash mode, none =>
    ["lb", dst.text, Text.checksumText typeHash, property, mode.name]
  | .batch typeHash mode, some slot =>
    ["lbs", dst.text, Text.checksumText typeHash, slot.text, property, mode.name]
  | .namedBatch typeHash nameHash mode, none =>
    ["lbn", dst.text, Text.checksumText typeHash, Text.checksumText nameHash, property, mode.name]
  | .namedBatch typeHash nameHash mode, some slot =>
    ["lbns", dst.text, Text.checksumText typeHash, Text.checksumText nameHash, slot.text, property,
      mode.name]

/-- The words of a store.  A store reaches every device of a batch, so that the batch mode is left
out; there is no store to a slot of a named batch. -/
def storeWords (device : DeviceTarget) (slot : Option Operand) (property : String)
    (value : Operand) : Except CodeError (List String) :=
  match device, slot with
  | .pin pin, none => .ok ["s", pin, property, value.text]
  | .pin pin, some slot => .ok ["ss", pin, slot.text, property, value.text]
  | .batch typeHash _, none => .ok ["sb", Text.checksumText typeHash, property, value.text]
  | .batch typeHash _, some slot =>
    .ok ["sbs", Text.checksumText typeHash, slot.text, property, value.text]
  | .namedBatch typeHash nameHash _, none =>
    .ok ["sbn", Text.checksumText typeHash, Text.checksumText nameHash, property, value.text]
  | .namedBatch _ nameHash _, some _ =>
    .error (.unsupportedDeviceStore (Text.checksumText nameHash))

/-- The words of an instruction. -/
def words : Instruction → Except CodeError (List String)
  | label name => .ok [name ++ ":"]
  | move dst source => .ok ["move", dst.text, source.text]
  | arithmetic operator dst left right =>
    .ok [operator.mnemonic, dst.text, left.text, right.text]
  | compare comparison dst left right =>
    .ok ["s" ++ comparison.mnemonic, dst.text, left.text, right.text]
  | bitwise operator dst left right => .ok [operator.mnemonic, dst.text, left.text, right.text]
  | select dst condition thenValue elseValue =>
    .ok ["select", dst.text, condition.text, thenValue.text, elseValue.text]
  | jump target => .ok ["j", target]
  | branch comparison left right target =>
    .ok ["b" ++ comparison.mnemonic, left.text, right.text, target]
  | branchRelative comparison left right offset =>
    .ok ["br" ++ comparison.mnemonic, left.text, right.text, toString offset]
  | load dst device slot property => .ok (loadWords dst device slot property)
  | store device slot property value => storeWords device slot property value
  | sleep duration => .ok ["sleep", duration.text]
  | yield => .ok ["yield"]
  | hcf => .ok ["hcf"]
  | function name dst arguments => .ok (name :: dst.text :: arguments.map Operand.text)

/-- An instruction as a line of assembly. -/
def text (instruction : Instruction) : Except CodeError String :=
  instruction.words.map line

end Instruction

/-- Instructions as lines of assembly. -/
def assemble (code : List Instruction) : Except CodeError String :=
  (code.mapM Instruction.text).map String.join

end ChipScript
