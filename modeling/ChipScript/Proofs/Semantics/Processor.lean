import ChipScript.Proofs.Semantics.Engine

/-!
# Runs on binary64 numbers

The values of a chip are binary64 numbers, NaN among them.  They are in no total order, so that runs
on them are defined here on their own: comparisons and arithmetic are those of the numbers, and a
comparison with a NaN fails unless it is `!=`.

* `Processor` is what is left open: the functions, the bitwise instructions on numbers that are no
  truth values, and the world.
* `Processor.run` is the effect of code without jumps on the contents of the registers, and
  `Processor.after` takes steps through code with jumps.
* `Processor.evaluate` is the value that an expression should have.
-/

namespace ChipScript

/-- What a chip computes with, apart from the arithmetic of numbers. -/
structure Processor where
  bitwise : Connective → Float → Float → Float
  function : String → List Float → Float
  /-- The value of a text that denotes no number. -/
  unreadable : String → Float
  world : Trace Float → Query Float → Float
  /-- On truth values the bitwise instructions are the connectives. -/
  bitwise_truth : ∀ (operator : Connective) (a b : Bool),
    bitwise operator (truthValue a) (truthValue b) = truthValue (operator.apply a b)

namespace Processor

variable (P : Processor)

/-! ## Operands and questions -/

/-- The value of a text that is written as an operand: what the literal or the constant denotes. -/
def word (text : String) : Float :=
  (Literal.read? text <|> Vocabulary.constant? text).getD (P.unreadable text)

/-- What the processor computes with.  A comparison with a NaN fails unless it is `!=`. -/
def engine : Engine Float where
  word := P.word
  arithmetic := Arithmetic.apply
  compare := fun comparison a b => truthValue (comparison.holds a b)
  bitwise := P.bitwise
  select := fun c a b => if c != 0.0 then a else b
  function := P.function
  world := P.world

/-- The value of an operand. -/
abbrev read (s : Contents Float) (operand : Operand) : Float := P.engine.read s operand

/-- A question to the world leaves its answer in the trace. -/
abbrev ask (query : Query Float) (trace : Trace Float) : Float × Trace Float :=
  P.engine.ask query trace

/-- A call of a function.  Random numbers come from the world. -/
abbrev call (name : String) (arguments : List Float) (trace : Trace Float) : Float × Trace Float :=
  P.engine.call name arguments trace

/-- The effect of an instruction on the contents.  Labels, jumps and branches have none. -/
abbrev effect (s : Contents Float) (instruction : Instruction) : Contents Float :=
  P.engine.effect s instruction

/-- The contents after code without jumps. -/
abbrev run (s : Contents Float) (code : List Instruction) : Contents Float :=
  P.engine.run s code

theorem word_of_read? {text : String} {x : Float} (h : Literal.read? text = some x) :
    P.word text = x := by
  simp [word, h]

theorem word_one : P.word "1" = 1.0 := by
  have hone : Literal.read? "1" = some 1.0 := by decide +kernel
  exact P.word_of_read? hone

/-- The text of a hash denotes the hash. -/
theorem word_checksumText (hash : Int32) :
    P.word (Text.checksumText hash) = Binary64.ofInt hash.toInt :=
  P.word_of_read? (Literal.read?_toString hash.toInt)

end Processor

/-! ## Steps -/

namespace Machine

/-- Goes on at a label of the code. -/
def jumpIn (code : List Instruction) (m : Machine Float) (name : String) : Machine Float :=
  match labelIndex? code name with
  | some index => { m with index }
  | none => { m with status := .lost }

end Machine

namespace Processor

variable (P : Processor) (code : List Instruction)

/-- Performs an instruction. -/
def perform (m : Machine Float) : Instruction → Machine Float
  | .jump target => m.jumpIn code target
  | .branch comparison left right target =>
    if comparison.holds (P.read m.contents left) (P.read m.contents right) then m.jumpIn code target
    else m.next
  | .branchRelative comparison left right offset =>
    if comparison.holds (P.read m.contents left) (P.read m.contents right) then m.moveBy offset
    else m.next
  | .hcf => { m with status := .halted }
  | instruction => m.proceed (P.effect m.contents instruction)

/-- One step.  A processor that has stopped stays as it is. -/
def step (m : Machine Float) : Machine Float :=
  match m.status with
  | .running =>
    match code[m.index]? with
    | some instruction => P.perform code m instruction
    | none => { m with status := .ended }
  | _ => m

/-- The state after a number of steps. -/
def after (steps : Nat) (m : Machine Float) : Machine Float :=
  (P.step code)^[steps] m

theorem after_succ (steps : Nat) (m : Machine Float) :
    P.after code (steps + 1) m = P.step code (P.after code steps m) :=
  Function.iterate_succ_apply' _ _ _

/-- Steps lead from one state to another. -/
def Leads (m m' : Machine Float) : Prop :=
  ∃ steps, P.after code steps m = m'

variable {P code}

theorem Leads.refl (m : Machine Float) : P.Leads code m m :=
  ⟨0, rfl⟩

theorem after_add (first second : Nat) (m : Machine Float) :
    P.after code (first + second) m = P.after code second (P.after code first m) := by
  rw [after, Nat.add_comm, Function.iterate_add_apply]
  rfl

theorem Leads.trans {m m' m'' : Machine Float} (hfirst : P.Leads code m m')
    (hsecond : P.Leads code m' m'') : P.Leads code m m'' := by
  obtain ⟨a, rfl⟩ := hfirst
  obtain ⟨b, rfl⟩ := hsecond
  exact ⟨a + b, after_add a b m⟩

/-- One step performs the instruction at the index. -/
theorem leads_perform {index : Nat} {s : Contents Float} {instruction : Instruction}
    (hfetched : code[index]? = some instruction) :
    P.Leads code (.placed index s) (P.perform code (.placed index s) instruction) := by
  refine ⟨1, ?_⟩
  simp [after, step, Machine.placed, hfetched]

end Processor

/-! ## Values of expressions -/

namespace Processor

variable (P : Processor) (env : Environment Float)

/-- The value of a name, with the value of its index and with its logic type. -/
def evaluatePlace (name : String) (slot : Option Float) (property : Option String) :
    Eval Float Float :=
  match env name, slot, property with
  | none, _, _ => throw (.undefined name)
  | some (.value v), none, none => return v
  | some (.device config), slot, some property =>
      .ofTrace (P.ask (.load config.target slot property))
  | _, _, _ => throw .meaningless

mutual

/-- The value of an expression. -/
def evaluate : Node → Eval Float Float
  | .number text => return P.word text
  | .constant name => return P.word name
  | .hash text => return Binary64.ofInt (Text.checksum text).toInt
  | .read name index property => do
    let slot ← evaluateIndex index
    P.evaluatePlace env name slot property
  | .not operand => do
    let a ← evaluate operand
    return truthValue (a < 1.0)
  | .arithmetic operator left right => do
    let a ← evaluate left
    let b ← evaluate right
    return operator.apply a b
  | .comparison operator left right => do
    let a ← evaluate left
    let b ← evaluate right
    return truthValue (operator.holds a b)
  | .connective operator left right => do
    let a ← evaluate left
    let b ← evaluate right
    return truthValue (operator.apply (isTrue a) (isTrue b))
  | .choice condition thenValue elseValue =>
    match condition.value? with
    | some x => if x != 0.0 then evaluate thenValue else evaluate elseValue
    | none => do
      let c ← evaluate condition
      let a ← evaluate thenValue
      let b ← evaluate elseValue
      return if c != 0.0 then a else b
  | .call name arguments => do
    let values ← evaluateAll arguments
    if Vocabulary.functionArity? name = some arguments.length then .ofTrace (P.call name values)
    else throw .meaningless
  | _ => throw .meaningless

/-- The values of expressions, from left to right. -/
def evaluateAll : List Node → Eval Float (List Float)
  | [] => return []
  | node :: rest => do
    let value ← evaluate node
    let values ← evaluateAll rest
    return value :: values

/-- The value of an index. -/
def evaluateIndex : Option Node → Eval Float (Option Float)
  | none => return none
  | some node => do
    let value ← evaluate node
    return some value

end

end Processor

/-! ## Expressions on the processor -/

namespace Processor

variable (P : Processor)

/-- The processor with the values that expressions should have on it. -/
def calculator : Calculator Float where
  toEngine := P.engine
  evaluate := P.evaluate
  evaluateAll := P.evaluateAll
  evaluateAll_nil := fun env => by rw [evaluateAll]
  evaluateAll_cons := fun env node rest => by rw [evaluateAll]
  evaluate_number := fun env text => by rw [evaluate]; rfl
  evaluate_constant := fun env name => by rw [evaluate]; rfl
  evaluate_hash := fun env text => by
    rw [evaluate]
    exact congrArg pure (P.word_checksumText (Text.checksum text)).symm
  evaluate_variable := fun env name value hmeaning => by
    rw [evaluate, evaluateIndex, pure_bind]
    simp only [evaluatePlace, hmeaning]
  evaluate_load := fun env name index property config hmeaning => by
    rw [evaluate]
    cases index <;> simp [evaluateIndex, evaluateAll, evaluatePlace, hmeaning]
  evaluate_not := fun env operand => by
    rw [evaluate]
    simp only [engine, P.word_one]
    rfl
  evaluate_arithmetic := fun env operator left right => by rw [evaluate]; rfl
  evaluate_comparison := fun env operator left right => by rw [evaluate]; rfl
  evaluate_connective := fun env operator left right => by
    -- Both sides are made truth values, which the bitwise instruction joins.
    rw [evaluate]
    simp only [engine, P.word_one, P.bitwise_truth]
    rfl
  evaluate_choice_known := fun env condition thenValue elseValue x hvalue => by
    rw [evaluate, hvalue]
  evaluate_choice := fun env condition thenValue elseValue hvalue => by
    rw [evaluate, hvalue]
    rfl
  evaluate_call := fun env name arguments harity => by
    rw [evaluate]
    simp only [harity, if_true]

end Processor
end ChipScript
