import ChipScript.Chip.Generator

/-!
# Code for expressions

The value of an expression is computed into a given register.  Of the operands of an instruction
that have to be computed, the first is computed into that register too, since the instruction
writes it last, and every other into a temporary of its own, which is free again after the
instruction.
-/

namespace ChipScript.Gen

/-! ## Operands -/

/-- The number one, below which a value is false. -/
def one : Operand := .immediate "1"

/-- The operand for a node, computed by `generate` into `dst` if it needs code. -/
def materialize (node : Node) (generate : Register → Gen Unit) (dst : Register) : Gen Operand := do
  match ← query (·.operand? node) with
  | some operand => return operand
  | none =>
    generate dst
    return .register dst

/-- The registers for the operands of one instruction. -/
structure Scope where
  /-- The register that the instruction writes. -/
  dst : Register
  /-- Whether an operand has been computed into it. -/
  taken : Bool
  /-- The temporaries for the other operands. -/
  temporaries : List Register

/-- No operand has been computed. -/
def Scope.opened (dst : Register) : Scope := ⟨dst, false, []⟩

/-- The operand for a node, computed by `generate` into the next register of the scope if it needs
code. -/
def operandIn (scope : Scope) (node : Node) (generate : Register → Gen Unit) :
    Gen (Operand × Scope) := do
  match ← query (·.operand? node) with
  | some operand => return (operand, scope)
  | none =>
    if scope.taken then
      let temporary ← reserve
      generate temporary
      return (.register temporary,
        { scope with temporaries := scope.temporaries ++ [temporary] })
    else
      generate scope.dst
      return (.register scope.dst, { scope with taken := true })

/-- Frees the temporaries of a scope. -/
def closeScope (scope : Scope) : Gen Unit :=
  releaseAll scope.temporaries

/-- Uses the operands for two nodes, and frees what they took. -/
def withPair (dst : Register) (left : Node) (generateLeft : Register → Gen Unit) (right : Node)
    (generateRight : Register → Gen Unit) (use : Operand → Operand → Gen Unit) : Gen Unit := do
  let (a, scope) ← operandIn (.opened dst) left generateLeft
  let (b, scope) ← operandIn scope right generateRight
  use a b
  closeScope scope

/-- The code of a command. -/
def commandCode : Vocabulary.Command → List Operand → List Instruction
  | .sleep, operands => operands.map .sleep
  | .yield, _ => [.yield]
  | .hcf, _ => [.hcf]

/-! ## Expressions -/

mutual

/-- Computes a node into `dst`. -/
def expression : Node → (dst : Register) → Gen Unit
  | .arithmetic operator left right, dst =>
    withPair dst left (expression left) right (expression right) fun a b =>
      emit (.arithmetic operator dst a b)
  | .comparison operator left right, dst =>
    withPair dst left (expression left) right (expression right) fun a b =>
      emit (.compare operator dst a b)
  | .connective operator left right, dst => do
    let a ← materialize left (expression left) dst
    let temporary ← reserve
    let b ← materialize right (expression right) temporary
    emit (.compare .greaterEqual dst a one)
    emit (.compare .greaterEqual temporary b one)
    emit (.bitwise operator dst (.register dst) (.register temporary))
    release temporary
  | .not operand, dst => do
    let a ← materialize operand (expression operand) dst
    emit (.compare .less dst a one)
  | .choice condition thenValue elseValue, dst =>
    match condition.value? with
    | some v => if v != 0.0 then expression thenValue dst else expression elseValue dst
    | none => do
      let (c, scope) ← operandIn (.opened dst) condition (expression condition)
      let (a, scope) ← operandIn scope thenValue (expression thenValue)
      let (b, scope) ← operandIn scope elseValue (expression elseValue)
      emit (.select dst c a b)
      closeScope scope
  | .number text, dst => emit (.move dst (.immediate text))
  | .constant name, dst => emit (.move dst (.immediate name))
  | .hash text, dst => emit (.move dst (.immediate (Text.checksumText (Text.checksum text))))
  | .read name index property, dst => do
    match (← get).device? name with
    | some config =>
      match property with
      | none => throw (.missingProperty name)
      | some property =>
        let (slot, scope) ← slotIn (.opened dst) index
        emit (.load dst config.target slot property)
        closeScope scope
    | none =>
      let register ← query (·.registerOf name index property)
      emit (.move dst (.register register))
  | .call name arguments, dst =>
    match Vocabulary.Command.ofName? name with
    | some command => do
      checkArity name command.arity arguments.length
      let (operands, scope) ← operandsIn (.opened dst) arguments
      emitAll (commandCode command operands)
      closeScope scope
    | none =>
      match Vocabulary.functionArity? name with
      | some arity => do
        checkArity name arity arguments.length
        let (operands, scope) ← operandsIn (.opened dst) arguments
        emit (.function name dst operands)
        closeScope scope
      | none => throw (.unsupported (.function name))
  | .device _, _ => throw (.unsupported .deviceOutsideDeclaration)
  | _, _ => throw (.unsupported .statementAsValue)

/-- The operands for the arguments of a call. -/
def operandsIn : Scope → List Node → Gen (List Operand × Scope)
  | scope, [] => return ([], scope)
  | scope, argument :: rest => do
    let (operand, scope) ← operandIn scope argument (expression argument)
    let (operands, scope) ← operandsIn scope rest
    return (operand :: operands, scope)

/-- The operand for an index. -/
def slotIn : Scope → Option Node → Gen (Option Operand × Scope)
  | scope, none => return (none, scope)
  | scope, some index => do
    let (operand, scope) ← operandIn scope index (expression index)
    return (some operand, scope)

end

/-! ## Conditions -/

/-- Jumps to `label` unless a condition holds. -/
def jumpUnless (condition : Node) (dst : Register) (label : String) : Gen Unit :=
  match condition with
  | .comparison operator left right =>
    withPair dst left (expression left) right (expression right) fun a b =>
      emit (.branch operator.inverse a b label)
  | .connective .and left right =>
    withPair dst left (expression left) right (expression right) fun a b => do
      emit (.branch .less a one label)
      emit (.branch .less b one label)
  | .connective .or left right =>
    -- Either part that holds passes over the jump.
    withPair dst left (expression left) right (expression right) fun a b => do
      emit (.branchRelative .greaterEqual a one 3)
      emit (.branchRelative .greaterEqual b one 2)
      emit (.jump label)
  | .not operand => do
    let a ← materialize operand (expression operand) dst
    emit (.branch .greaterEqual a one label)
  | _ => do
    let a ← materialize condition (expression condition) dst
    emit (.branch .less a one label)

end ChipScript.Gen
