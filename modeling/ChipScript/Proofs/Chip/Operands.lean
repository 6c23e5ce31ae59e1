import ChipScript.Chip.Statement
import Mathlib

/-!
# Operations and their operands

Most of what is generated for expressions has one form: the operands are gathered from left to
right, one instruction (or a short sequence) uses them, and the temporaries among them are freed.
`Gen.withOperands` is that form.  The equations below bring each kind of expression, condition and
store into it, so that facts about gathering operands are proved once.
-/

namespace ChipScript.Gen

/-- Gathers operands, appends the code that uses them and frees their temporaries. -/
def withOperands (dst : Register) (nodes : List Node) (use : List Operand → List Instruction) :
    Gen Unit := do
  let (operands, scope) ← operandsIn (.opened dst) nodes
  emitAll (use operands)
  closeScope scope

/-! ## Code that uses operands -/

/-- The code for two operands.  Operands are gathered one for each node, so that no other number of
    them is met. -/
def binaryCode (code : Operand → Operand → List Instruction) : List Operand → List Instruction
  | [a, b] => code a b
  | _ => []

/-- The code for one operand. -/
def unaryCode (code : Operand → List Instruction) : List Operand → List Instruction
  | [a] => code a
  | _ => []

/-- The code for the three operands of a choice. -/
def selectCode (dst : Register) : List Operand → List Instruction
  | [c, a, b] => [.select dst c a b]
  | _ => []

/-- The code of a load, whose operand is the index if there is one. -/
def loadCode (dst : Register) (config : DeviceConfig) (property : String)
    (operands : List Operand) : List Instruction :=
  [.load dst config.target operands.head? property]

/-- The code of a store: the value is gathered before the index. -/
def storeCode (config : DeviceConfig) (property : String) : List Operand → List Instruction
  | value :: index => [.store config.target index.head? property value]
  | [] => []

@[simp] theorem emitAll_singleton (instruction : Instruction) :
    emitAll [instruction] = emit instruction := by
  simp [emitAll]

/-! ## Expressions -/

section Expressions

attribute [local simp] expression operandsIn withOperands

theorem withPair_eq_withOperands (dst : Register) (left right : Node)
    (use : Operand → Operand → Gen Unit) (code : Operand → Operand → List Instruction)
    (h : ∀ a b, use a b = emitAll (code a b)) :
    withPair dst left (expression left) right (expression right) use =
      withOperands dst [left, right] (binaryCode code) := by
  simp [withPair, binaryCode, h]

theorem expression_arithmetic (operator : Arithmetic) (left right : Node) (dst : Register) :
    expression (.arithmetic operator left right) dst =
      withOperands dst [left, right] (binaryCode fun a b => [.arithmetic operator dst a b]) := by
  rw [expression]
  exact withPair_eq_withOperands _ _ _ _ _ fun a b => (emitAll_singleton _).symm

theorem expression_comparison (operator : Comparison) (left right : Node) (dst : Register) :
    expression (.comparison operator left right) dst =
      withOperands dst [left, right] (binaryCode fun a b => [.compare operator dst a b]) := by
  rw [expression]
  exact withPair_eq_withOperands _ _ _ _ _ fun a b => (emitAll_singleton _).symm

/-- An operand that is computed alone is computed into the destination and takes no temporary. -/
theorem materialize_eq_withOperands (node : Node) (dst : Register)
    (code : Operand → List Instruction) :
    (do let a ← materialize node (expression node) dst; emitAll (code a)) =
      withOperands dst [node] (unaryCode code) := by
  simp only [materialize, withOperands, operandsIn, operandIn, Scope.opened, closeScope, unaryCode,
    bind_assoc, pure_bind]
  congr 1
  funext found
  cases found with
  | some operand => simp [releaseAll]
  | none => simp [releaseAll]

theorem expression_not (operand : Node) (dst : Register) :
    expression (.not operand) dst =
      withOperands dst [operand] (unaryCode fun a => [.compare .less dst a one]) := by
  rw [expression, ← materialize_eq_withOperands]
  simp

theorem expression_choice {condition : Node} (thenValue elseValue : Node) (dst : Register)
    (h : condition.value? = none) :
    expression (.choice condition thenValue elseValue) dst =
      withOperands dst [condition, thenValue, elseValue] (selectCode dst) := by
  simp [h, selectCode]

theorem expression_choice_known {condition : Node} {value : Float} (thenValue elseValue : Node)
    (dst : Register) (h : condition.value? = some value) :
    expression (.choice condition thenValue elseValue) dst =
      if value != 0.0 then expression thenValue dst else expression elseValue dst := by
  simp [h]

theorem expression_command {name : String} {command : Vocabulary.Command} (arguments : List Node)
    (dst : Register) (h : Vocabulary.Command.ofName? name = some command) :
    expression (.call name arguments) dst = (do
      checkArity name command.arity arguments.length
      withOperands dst arguments (commandCode command)) := by
  simp [h]

theorem expression_function {name : String} {arity : Nat} (arguments : List Node)
    (dst : Register) (h : Vocabulary.Command.ofName? name = none)
    (hknown : Vocabulary.functionArity? name = some arity) :
    expression (.call name arguments) dst = (do
      checkArity name arity arguments.length
      withOperands dst arguments fun operands => [.function name dst operands]) := by
  simp [h, hknown]

/-- An index is gathered like a list of at most one operand. -/
theorem slotIn_eq_operandsIn (scope : Scope) (index : Option Node) :
    slotIn scope index = (do
      let (operands, scope) ← operandsIn scope index.toList
      return (operands.head?, scope)) := by
  cases index <;> simp [slotIn]

/-- A read of a device, in a state that knows the device. -/
theorem expression_load {g : Generator} {name : String} {config : DeviceConfig}
    (index : Option Node) (property : String) (dst : Register) (h : g.device? name = some config) :
    expression (.read name index (some property)) dst g =
      withOperands dst index.toList (loadCode dst config property) g := by
  have hknown : (get : Gen Generator) g = .ok g g := rfl
  simp only [expression, slotIn_eq_operandsIn, withOperands, loadCode, emitAll_singleton,
    bind_assoc, pure_bind]
  change EStateM.bind get _ g = _
  simp [EStateM.bind, hknown, h]

end Expressions

/-! ## Stores and conditions -/

theorem deviceStore_eq (config : DeviceConfig) (name : String) (index : Option Node)
    (property : String) (value : Node) (dst : Register)
    (h : index = none ∨ ∀ deviceName mode, config.addressing ≠ .namedBatch deviceName mode) :
    deviceStore config name index (some property) value dst =
      withOperands dst (value :: index.toList) (storeCode config property) := by
  have hgathered : ∀ index : Option Node,
      (do let stored ← operandIn (.opened dst) value (expression value)
          let slot ← slotIn stored.2 index
          emit (.store config.target slot.1 property stored.1)
          closeScope slot.2) =
        withOperands dst (value :: index.toList) (storeCode config property) := by
    intro index
    simp [withOperands, operandsIn, slotIn_eq_operandsIn, storeCode]
  rw [← hgathered]
  unfold deviceStore
  cases index with
  | none => rfl
  | some node =>
    -- Only a named batch has no store to an index.
    have hunnamed := h.resolve_left (Option.some_ne_none node)
    cases haddress : config.addressing with
    | namedBatch deviceName mode => exact absurd haddress (hunnamed deviceName mode)
    | pin _ | batch _ => rfl

/-- The nodes whose values decide a condition. -/
def tested : Node → List Node
  | .comparison _ left right => [left, right]
  | .connective _ left right => [left, right]
  | .not operand => [operand]
  | condition => [condition]

/-- The code that jumps to a label unless a condition holds, given the operands that decide it. -/
def testCode (label : String) : Node → List Operand → List Instruction
  | .comparison operator _ _ => binaryCode fun a b => [.branch operator.inverse a b label]
  | .connective .and _ _ =>
    binaryCode fun a b => [.branch .less a one label, .branch .less b one label]
  | .connective .or _ _ =>
    binaryCode fun a b => [.branchRelative .greaterEqual a one 3,
      .branchRelative .greaterEqual b one 2, .jump label]
  | .not _ => unaryCode fun a => [.branch .greaterEqual a one label]
  | _ => unaryCode fun a => [.branch .less a one label]

theorem jumpUnless_eq (condition : Node) (dst : Register) (label : String) :
    jumpUnless condition dst label =
      withOperands dst (tested condition) (testCode label condition) := by
  have halone : ∀ (node : Node) (instruction : Operand → Instruction),
      (do let a ← materialize node (expression node) dst; emit (instruction a)) =
        withOperands dst [node] (unaryCode fun a => [instruction a]) := by
    intro node instruction
    rw [← materialize_eq_withOperands]
    simp
  -- A comparison and a connective have two operands to test, every other condition has one.
  cases condition with
  | comparison operator left right =>
    rw [jumpUnless]
    exact withPair_eq_withOperands _ _ _ _ _ fun a b => (emitAll_singleton _).symm
  | connective operator left right =>
    cases operator with
    | and =>
      rw [jumpUnless]
      exact withPair_eq_withOperands _ _ _ _ _ fun a b => by simp [emitAll]
    | or =>
      rw [jumpUnless]
      exact withPair_eq_withOperands _ _ _ _ _ fun a b => by simp [emitAll]
  | not operand =>
    rw [jumpUnless]
    exact halone operand _
  | _ => exact halone _ _

end ChipScript.Gen
