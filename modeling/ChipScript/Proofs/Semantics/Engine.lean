import ChipScript.Proofs.Semantics.Machine
import ChipScript.Proofs.Semantics.Script

/-!
# Code without jumps

The code of a value has no jumps, so that its effect is a function of what the registers hold and of
what has been seen (`Contents`), and nothing has to be said of places and steps.

* `Engine` is what such code computes with, and `Engine.run` its effect.
* `Calculator` is an engine together with the values that expressions should have on it.  Its laws
  say of each kind of expression what its own instructions make of the values of its parts.

Neither asks for an order.  Values in a total order are one case, and binary64 numbers with their
NaNs are another.
-/

namespace ChipScript

/-! ## Contents -/

/-- What the registers hold, and what has been seen. -/
structure Contents (V : Type) where
  registers : Register → V
  trace : Trace V

namespace Contents

variable {V : Type}

/-- A register is written. -/
def write (s : Contents V) (dst : Register) (value : V) : Contents V :=
  { s with registers := Function.update s.registers dst value }

/-- A register is written with what a question or a call has yielded. -/
def receive (s : Contents V) (dst : Register) (answer : V × Trace V) : Contents V :=
  ⟨Function.update s.registers dst answer.1, answer.2⟩

/-- Something is seen. -/
def record (s : Contents V) (event : Event V) : Contents V :=
  { s with trace := s.trace ++ [event] }

@[simp] theorem write_trace (s : Contents V) (dst : Register) (value : V) :
    (s.write dst value).trace = s.trace := rfl

@[simp] theorem write_registers_self (s : Contents V) (dst : Register) (value : V) :
    (s.write dst value).registers dst = value := by
  simp [write]

theorem write_registers_of_ne (s : Contents V) {dst r : Register} (value : V) (h : r ≠ dst) :
    (s.write dst value).registers r = s.registers r := by
  simp [write, Function.update_of_ne h]

end Contents

namespace Machine

variable {V : Type}

/-- What a machine holds. -/
def contents (m : Machine V) : Contents V := ⟨m.registers, m.trace⟩

/-- A machine that runs, with given contents. -/
def placed (index : Nat) (s : Contents V) : Machine V :=
  ⟨index, s.registers, s.trace, .running⟩

@[simp] theorem contents_placed (index : Nat) (s : Contents V) :
    (placed index s).contents = s := rfl

/-- Goes on with other contents. -/
def proceed (m : Machine V) (s : Contents V) : Machine V :=
  { m with registers := s.registers, trace := s.trace, index := m.index + 1 }

end Machine

/-! ## Engines -/

/-- What code without jumps computes with. -/
structure Engine (V : Type) where
  /-- The value of a text that is written as an operand. -/
  word : String → V
  arithmetic : Arithmetic → V → V → V
  /-- The value that a comparison leaves. -/
  compare : Comparison → V → V → V
  bitwise : Connective → V → V → V
  /-- The one of two values that is chosen by the value of a condition. -/
  select : V → V → V → V
  function : String → List V → V
  world : Trace V → Query V → V

namespace Engine

variable {V : Type} (E : Engine V)

/-- The value of an operand. -/
def read (s : Contents V) : Operand → V
  | .register r => s.registers r
  | .immediate text => E.word text

/-- A question to the world leaves its answer in the trace. -/
def ask (query : Query V) (trace : Trace V) : V × Trace V :=
  (E.world trace query, trace ++ [.answer query (E.world trace query)])

/-- A call of a function.  Random numbers come from the world. -/
def call (name : String) (arguments : List V) (trace : Trace V) : V × Trace V :=
  if name = "rand" then E.ask .random trace else (E.function name arguments, trace)

/-- The effect of an instruction on the contents.  Labels, jumps and branches have none. -/
def effect (s : Contents V) : Instruction → Contents V
  | .move dst source => s.write dst (E.read s source)
  | .arithmetic operator dst left right =>
    s.write dst (E.arithmetic operator (E.read s left) (E.read s right))
  | .compare comparison dst left right =>
    s.write dst (E.compare comparison (E.read s left) (E.read s right))
  | .bitwise operator dst left right =>
    s.write dst (E.bitwise operator (E.read s left) (E.read s right))
  | .select dst condition thenValue elseValue =>
    s.write dst (E.select (E.read s condition) (E.read s thenValue) (E.read s elseValue))
  | .load dst device slot property =>
    s.receive dst (E.ask (.load device (slot.map (E.read s)) property) s.trace)
  | .store device slot property value =>
    s.record (.store device (slot.map (E.read s)) property (E.read s value))
  | .sleep duration => s.record (.sleep (E.read s duration))
  | .yield => s.record .yield
  | .function name dst arguments =>
    s.receive dst (E.call name (arguments.map (E.read s)) s.trace)
  | _ => s

/-- The contents after code without jumps. -/
def run (s : Contents V) (code : List Instruction) : Contents V :=
  code.foldl E.effect s

@[simp] theorem read_register (s : Contents V) (r : Register) :
    E.read s (.register r) = s.registers r := rfl

@[simp] theorem run_nil (s : Contents V) : E.run s [] = s := rfl

@[simp] theorem run_cons (s : Contents V) (instruction : Instruction) (code : List Instruction) :
    E.run s (instruction :: code) = E.run (E.effect s instruction) code := rfl

@[simp] theorem run_append (s : Contents V) (code more : List Instruction) :
    E.run s (code ++ more) = E.run (E.run s code) more := by
  simp [run]

/-- What an operand that is no register reads does not depend on the contents. -/
theorem read_congr {s s' : Contents V} {operand : Operand}
    (h : ∀ r, operand = .register r → s'.registers r = s.registers r) :
    E.read s' operand = E.read s operand := by
  cases operand with
  | register r => exact h r rfl
  | immediate text => rfl

/-! ### Traces -/

/-- No instruction shows more than one event. -/
theorem effect_trace (s : Contents V) (instruction : Instruction) :
    (E.effect s instruction).trace = s.trace ∨
      ∃ event, (E.effect s instruction).trace = s.trace ++ [event] := by
  cases instruction with
  | load dst device slot property => exact .inr ⟨_, rfl⟩
  | store device slot property value => exact .inr ⟨_, rfl⟩
  | sleep duration => exact .inr ⟨_, rfl⟩
  | yield => exact .inr ⟨_, rfl⟩
  | function name dst arguments =>
    simp only [effect, call]
    split
    · exact .inr ⟨_, rfl⟩
    · exact .inl rfl
  | _ => exact .inl rfl

/-- Nothing that has been seen is undone. -/
theorem trace_prefix_run (s : Contents V) (code : List Instruction) :
    s.trace <+: (E.run s code).trace := by
  induction code generalizing s with
  | nil => exact List.prefix_rfl
  | cons instruction rest ih =>
    refine List.IsPrefix.trans ?_ (ih (E.effect s instruction))
    rcases E.effect_trace s instruction with hsame | ⟨event, hevent⟩
    · rw [hsame]
    · rw [hevent]
      exact List.prefix_append _ _

/-- Events come one by one, so that every beginning of what a run shows is all that some beginning
    of its code shows. -/
theorem exists_prefix_of_trace {s : Contents V} {code : List Instruction} {seen : Trace V}
    (hseen : s.trace <+: seen) (hrun : seen <+: (E.run s code).trace) :
    ∃ before, before <+: code ∧ (E.run s before).trace = seen := by
  induction code generalizing s with
  | nil => exact ⟨[], List.nil_prefix, hseen.eq_of_length_le hrun.length_le⟩
  | cons instruction rest ih =>
    by_cases hnone : s.trace = seen
    · exact ⟨[], List.nil_prefix, hnone⟩
    · -- Something has been seen since, of which the first instruction shows one event at most.
      have hnext : (E.effect s instruction).trace <+: seen := by
        have hlater := E.trace_prefix_run (E.effect s instruction) rest
        rcases E.effect_trace s instruction with hsame | ⟨event, hevent⟩
        · rw [hsame]
          exact hseen
        · refine List.prefix_of_prefix_length_le hlater hrun ?_
          have hlonger : s.trace.length < seen.length :=
            hseen.length_le.lt_of_ne fun heq => hnone (hseen.eq_of_length heq)
          rw [hevent, List.length_append]
          exact hlonger
      obtain ⟨before, hbefore, htrace⟩ := ih hnext hrun
      exact ⟨instruction :: before, List.cons_prefix_cons.2 ⟨rfl, hbefore⟩, htrace⟩

end Engine

/-! ## Values of expressions -/

/-- An engine, and the values that expressions have on it.  A negation is a comparison with one, and
    so is what a connective makes of either side before they are joined. -/
structure Calculator (V : Type) extends Engine V where
  evaluate : Environment V → Node → Eval V V
  evaluateAll : Environment V → List Node → Eval V (List V)
  evaluateAll_nil : ∀ env, evaluateAll env [] = pure []
  evaluateAll_cons : ∀ env node rest, evaluateAll env (node :: rest) = (do
    let value ← evaluate env node
    let values ← evaluateAll env rest
    return value :: values)
  evaluate_number : ∀ env text, evaluate env (.number text) = pure (word text)
  evaluate_constant : ∀ env name, evaluate env (.constant name) = pure (word name)
  evaluate_hash : ∀ env text,
    evaluate env (.hash text) = pure (word (Text.checksumText (Text.checksum text)))
  evaluate_variable : ∀ env name value, env name = some (.value value) →
    evaluate env (.read name none none) = pure value
  evaluate_load : ∀ env name index property config, env name = some (.device config) →
    evaluate env (.read name index (some property)) = (do
      let slot ← evaluateAll env index.toList
      .ofTrace (toEngine.ask (.load config.target slot.head? property)))
  evaluate_not : ∀ env operand, evaluate env (.not operand) = (do
    let a ← evaluate env operand
    return compare .less a (word "1"))
  evaluate_arithmetic : ∀ env operator left right,
    evaluate env (.arithmetic operator left right) = (do
      let a ← evaluate env left
      let b ← evaluate env right
      return arithmetic operator a b)
  evaluate_comparison : ∀ env operator left right,
    evaluate env (.comparison operator left right) = (do
      let a ← evaluate env left
      let b ← evaluate env right
      return compare operator a b)
  evaluate_connective : ∀ env operator left right,
    evaluate env (.connective operator left right) = (do
      let a ← evaluate env left
      let b ← evaluate env right
      return bitwise operator (compare .greaterEqual a (word "1"))
        (compare .greaterEqual b (word "1")))
  /-- Where the condition of a choice is a literal, one part is left out. -/
  evaluate_choice_known : ∀ env condition thenValue elseValue x, condition.value? = some x →
    evaluate env (.choice condition thenValue elseValue) =
      if x != 0.0 then evaluate env thenValue else evaluate env elseValue
  evaluate_choice : ∀ env condition thenValue elseValue, condition.value? = none →
    evaluate env (.choice condition thenValue elseValue) = (do
      let c ← evaluate env condition
      let a ← evaluate env thenValue
      let b ← evaluate env elseValue
      return select c a b)
  evaluate_call : ∀ env name arguments,
    Vocabulary.functionArity? name = some arguments.length →
    evaluate env (.call name arguments) = (do
      let values ← evaluateAll env arguments
      .ofTrace (toEngine.call name values))

end ChipScript
