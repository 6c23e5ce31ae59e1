import ChipScript.Chip.Expression

/-!
# Code for statements

Statements are given one register for what they compute on the way.  A condition that is known
leaves no code for the branch that it rules out.
-/

namespace ChipScript

namespace Node

mutual

/-- Whether an expression reads a name. -/
def reads (name : String) : Node → Bool
  | read other index _ => other == name || indexReads name index
  | not operand => reads name operand
  | arithmetic _ left right => reads name left || reads name right
  | comparison _ left right => reads name left || reads name right
  | connective _ left right => reads name left || reads name right
  | choice condition thenValue elseValue =>
    reads name condition || reads name thenValue || reads name elseValue
  | call _ arguments => anyReads name arguments
  | _ => false

/-- Whether one of several expressions reads a name. -/
def anyReads (name : String) : List Node → Bool
  | [] => false
  | node :: rest => reads name node || anyReads name rest

/-- Whether an index reads a name. -/
def indexReads (name : String) : Option Node → Bool
  | none => false
  | some index => reads name index

end

end Node

namespace Gen

/-! ## Declarations and assignments -/

/-- A name can be declared once. -/
def checkNew (name : String) : Gen Unit := do
  let g ← get
  if (g.device? name).isSome || (g.variableTable.lookup name).isSome then throw (.redeclared name)

/-- Computes a node into a register, by one move if it needs no code. -/
def computeInto (register : Register) (node : Node) : Gen Unit := do
  match ← query (·.operand? node) with
  | some operand => emit (.move register operand)
  | none => expression node register

/-- A declaration.  A device takes no register. -/
def declaration (name : String) (value : Node) : Gen Unit := do
  checkNew name
  match value with
  | .device config => modify fun g => { g with deviceTable := (name, config) :: g.deviceTable }
  | _ =>
    let register ← reserveHigh
    computeInto register value
    modify fun g => { g with variableTable := (name, register) :: g.variableTable }

/-- A store to a logic type of a device. -/
def deviceStore (config : DeviceConfig) (name : String) (index : Option Node)
    (property : Option String) (value : Node) (dst : Register) : Gen Unit := do
  match property, index, config.addressing with
  | none, _, _ => throw (.missingProperty name)
  | some _, some _, .namedBatch _ _ => throw (.unsupportedDeviceStore name)
  | some property, _, _ =>
    let (a, scope) ← operandIn (.opened dst) value (expression value)
    let (slot, scope) ← slotIn scope index
    emit (.store config.target slot property a)
    closeScope scope

/-- An assignment to a variable.  A value that reads the variable after a part of it has been
computed is computed into a temporary first. -/
def variableStore (name : String) (index : Option Node) (property : Option String) (value : Node) :
    Gen Unit := do
  let register ← query (·.registerOf name index property)
  match ← query (·.operand? value) with
  | some operand => emit (.move register operand)
  | none =>
    if value.reads name && !(← get).isSingleInstruction value then
      let temporary ← reserve
      expression value temporary
      emit (.move register (.register temporary))
      release temporary
    else expression value register

/-- An assignment. -/
def assignment (name : String) (index : Option Node) (property : Option String) (value : Node)
    (dst : Register) : Gen Unit := do
  match (← get).device? name with
  | some config => deviceStore config name index property value dst
  | none => variableStore name index property value

/-! ## Control -/

/-- A loop control. -/
def loopControl (kind : LoopControl) : Gen Unit := do
  match LoopStack.target? (← get).loops kind with
  | some target => emit (.jump target)
  | none => throw (.controlOutsideLoop kind)

/-- A loop with labels made from the two stems.  The test may jump to the label at the end. -/
def loopWith (startStem endStem : String) (test : String → Gen Unit) (body : Gen Unit) :
    Gen Unit := do
  let startLabel ← newLabel startStem
  let endLabel ← newLabel endStem
  modify fun g => { g with loops := LoopStack.push g.loops ⟨endLabel, startLabel⟩ }
  emit (.label startLabel)
  test endLabel
  body
  emit (.jump startLabel)
  emit (.label endLabel)
  modify fun g => { g with loops := LoopStack.pop g.loops }

mutual

/-- The code of a statement, which may use `dst`. -/
def statement : Node → (dst : Register) → Gen Unit
  | .block body, dst => statements body dst
  | .branch condition thenBranch elseBranch, dst =>
    match condition.truth? with
    | some true => statement thenBranch dst
    | some false => otherwise elseBranch dst
    | none =>
      if elseBranch.isSome then do
        let elseLabel ← newLabel "if_else"
        let endLabel ← newLabel "if_end"
        jumpUnless condition dst elseLabel
        statement thenBranch dst
        emit (.jump endLabel)
        emit (.label elseLabel)
        otherwise elseBranch dst
        emit (.label endLabel)
      else do
        let endLabel ← newLabel "if"
        jumpUnless condition dst endLabel
        statement thenBranch dst
        emit (.label endLabel)
  | .whileLoop condition body, dst =>
    match condition.truth? with
    | some false => pure ()
    | some true => loopWith "while_start" "while_end" (fun _ => pure ()) (statement body dst)
    | none => loopWith "while_start" "while_end" (jumpUnless condition dst) (statement body dst)
  | .loop body, dst => loopWith "loop_start" "loop_end" (fun _ => pure ()) (statement body dst)
  | .control kind, _ => loopControl kind
  | .declare name value, _ => declaration name value
  | .assign name index property value, dst => assignment name index property value dst
  | node, dst => expression node dst

/-- The code of several statements. -/
def statements : List Node → (dst : Register) → Gen Unit
  | [], _ => pure ()
  | first :: rest, dst => do
    statement first dst
    statements rest dst

/-- The code of the other branch of a choice. -/
def otherwise : Option Node → (dst : Register) → Gen Unit
  | none, _ => pure ()
  | some node, dst => statement node dst

end

/-! ## Scripts -/

/-- Forgets the variables and frees their registers. -/
def dropVariables : Gen Unit := do
  let registers := (← get).variableTable.map (·.2)
  modify fun g => { g with variableTable := [] }
  releaseAll registers

/-- The code of a script.  No register may be in use after it. -/
def program (statements : Program) : Gen Unit := do
  let scratch ← reserve
  Gen.statements statements scratch
  release scratch
  dropVariables
  let count := (← get).registers.inUse
  if count ≠ 0 then throw (.registerLeak count)

end Gen

/-- The code of a script. -/
def Program.code (program : Program) : Except CodeError (List Instruction) :=
  match (Gen.program program).run .empty with
  | .ok _ g => .ok g.code.toList
  | .error e _ => .error e

end ChipScript
