import ChipScript.Proofs.Chip.Destinations
import ChipScript.Proofs.Semantics.Engine

/-!
# Code for expressions computes their values

`Calculator.expression_values`: on every engine, and run from any contents of the registers, the
code for an expression leaves the value of the expression in its destination and changes no other
register in use.  The names of the expression mean what the registers hold when the code begins.

The code that gives a variable its first value or a new one is built on that of an expression, and
leaves the value in the register of the variable (`Calculator.computeInto_values`,
`Calculator.variableStore_values`).
-/

namespace ChipScript

variable {V : Type}

/-! ## Names -/

/-- What a name means, if it stands for a register or for devices. -/
def Binding.meaning (registers : Register → V) : Binding → Meaning V
  | register r => .value (registers r)
  | device config => .device config

/-- What the names mean in a state of generation, by what the registers hold. -/
def Generator.environment (g : Generator) (registers : Register → V) : Environment V :=
  fun name => (g.binding? name).map (·.meaning registers)

/-- The names that a node reads mean what they mean in the state. -/
def Knows (env : Environment V) (g : Generator) (registers : Register → V) (node : Node) : Prop :=
  ∀ name, node.reads name = true → env name = g.environment registers name

section Knowledge

variable {env : Environment V} {g g' : Generator} {registers registers' : Register → V}
  {node : Node}

theorem Knows.congr (h : Knows env g registers node)
    (hbindings : ∀ name, g'.binding? name = g.binding? name)
    (hkept : ∀ name r, node.reads name = true → g.binding? name = some (.register r) →
      registers' r = registers r) : Knows env g' registers' node := by
  intro name hread
  rw [h name hread, Generator.environment, Generator.environment, hbindings]
  cases hknown : g.binding? name with
  | none => rfl
  | some binding =>
    cases binding with
    | device config => rfl
    | register r => simp [Binding.meaning, hkept name r hread hknown]

theorem Knows.of_part {part : Node} (h : Knows env g registers node)
    (hvalue : node.isStatement = false) (hmem : part ∈ node.parts) : Knows env g registers part :=
  fun name hread => h name (Node.reads_of_part hvalue hmem hread)

end Knowledge

/-! ## What is kept -/

/-- The other registers in use are as they were. -/
def KeepsOthers (g : Generator) (dst : Register) (s s' : Contents V) : Prop :=
  ∀ r ∈ g.registers.reserved, r ≠ dst → s'.registers r = s.registers r

/-- The registers in use that no operand will be computed into are as they were. -/
def KeepsHeld (g : Generator) (scope : Gen.Scope) (s s' : Contents V) : Prop :=
  ∀ r ∈ g.registers.reserved, (r = scope.dst → scope.taken = true) →
    s'.registers r = s.registers r

namespace Calculator

variable {E : Calculator V} {env : Environment V} {g g' : Generator} {dst : Register}
  {s s' : Contents V} {node : Node}

theorem evaluateAll_one (env : Environment V) (node : Node) :
    E.evaluateAll env [node] = (do let v ← E.evaluate env node; return [v]) := by
  simp [evaluateAll_cons, evaluateAll_nil]

theorem evaluateAll_two (env : Environment V) (left right : Node) :
    E.evaluateAll env [left, right] = (do
      let a ← E.evaluate env left
      let b ← E.evaluate env right
      return [a, b]) := by
  simp [evaluateAll_cons, evaluateAll_nil]

theorem evaluateAll_three (env : Environment V) (first second third : Node) :
    E.evaluateAll env [first, second, third] = (do
      let a ← E.evaluate env first
      let b ← E.evaluate env second
      let c ← E.evaluate env third
      return [a, b, c]) := by
  simp [evaluateAll_cons, evaluateAll_nil]

/-! ## Operands that need no code -/

/-- A variable has the value that its register holds. -/
theorem evaluate_register {name : String} {r : Register}
    (hknown : g.binding? name = some (.register r))
    (hknows : Knows env g s.registers (.read name none none)) :
    E.evaluate env (.read name none none) s.trace = .ok (s.registers r) s.trace := by
  have hmeaning : env name = some (.value (s.registers r)) := by
    rw [hknows name (by simp [Node.reads]), Generator.environment, hknown]
    rfl
  rw [E.evaluate_variable env name _ hmeaning]
  rfl

/-- An operand that needs no code is what it reads. -/
theorem evaluate_of_operand? {operand : Operand} (h : g.operand? node = .ok (some operand))
    (hknows : Knows env g s.registers node) :
    E.evaluate env node s.trace = .ok (E.read s operand) s.trace := by
  -- A literal has the value that its text stands for, and a variable the one in its register.
  cases node with
  | number text =>
    cases h
    rw [E.evaluate_number]
    rfl
  | constant name =>
    cases h
    rw [E.evaluate_constant]
    rfl
  | hash text =>
    cases h
    rw [E.evaluate_hash]
    rfl
  | read name index property =>
    obtain ⟨r, hknown, rfl, rfl, rfl⟩ := Generator.operand?_read h
    exact evaluate_register hknown hknows
  | _ => cases h

/-! ## Gathering operands -/

/-- What the code of an expression does: it leaves the value in its destination and keeps the other
    registers in use, and nothing in it halts the chip. -/
structure Valued (E : Calculator V) (env : Environment V) (g : Generator) (dst : Register)
    (node : Node) (s : Contents V) (code : List Instruction) : Prop where
  value : E.evaluate env node s.trace = .ok ((E.run s code).registers dst) (E.run s code).trace
  kept : KeepsOthers g dst s (E.run s code)
  goesOn : .hcf ∉ code

/-- The code of an expression computes its value, from all contents and into every register that it
    may be computed into. -/
abbrev Values (E : Calculator V) (env : Environment V) (node : Node) : Prop :=
  ∀ (dst : Register) (g : Generator) (code : List Instruction) (s : Contents V), g.Accounted →
    dst ∈ g.registers.reserved → g.Safe dst node → Knows env g s.registers node →
    Gen.expression node dst g = .ok () (g.append code) → E.Valued env g dst node s code

/-- **One operand**, when the node does not read the destination. -/
theorem operandIn_values {scope scope' : Gen.Scope} {operand : Operand}
    (hvalues : E.Values env node) (haccounted : g.Accounted)
    (hreserved : scope.dst ∈ g.registers.reserved) (hspares : g.Spares scope.dst node)
    (hknows : Knows env g s.registers node)
    (h : Gen.operandIn scope node (Gen.expression node) g = .ok (operand, scope') g') :
    ∃ code, g'.code.toList = g.code.toList ++ code ∧
      E.evaluate env node s.trace =
        .ok (E.read (E.run s code) operand) (E.run s code).trace ∧
      Held g' scope' operand ∧ KeepsHeld g scope s (E.run s code) ∧ .hcf ∉ code := by
  rcases Gen.operandIn_cases h with ⟨hknown, rfl, rfl⟩ | ⟨-, huntaken, hgenerated, rfl, rfl⟩ |
    ⟨-, htaken, r, hfree, hgenerated, rfl, rfl⟩
  · -- The operand is a literal or a variable, whose register is not the destination.
    refine ⟨[], by simp, evaluate_of_operand? hknown hknows, ?_, fun _ _ _ => rfl, by simp⟩
    intro r hoperand
    subst hoperand
    obtain ⟨name, hread, hbinding⟩ := Generator.operand?_register hknown
    exact ⟨haccounted.mem_reserved hbinding, fun heq => absurd heq (hspares.ne hread hbinding)⟩
  · -- The first operand that is computed goes to the destination.
    obtain ⟨code, -, rfl⟩ := Gen.expression_eq_ok haccounted.nodup hgenerated
    obtain ⟨hvalue, hkept, hgoesOn⟩ := hvalues scope.dst g code s haccounted hreserved
      (.inr (.inr hspares)) hknows hgenerated
    refine ⟨code, by simp, hvalue, ?_, ?_, hgoesOn⟩
    · intro r hoperand
      cases hoperand
      exact ⟨hreserved, fun _ => rfl⟩
    · intro r hmem hheld
      refine hkept r hmem fun heq => ?_
      rw [huntaken] at hheld
      exact absurd (hheld heq) (by simp)
  · -- Every other one goes to a temporary, which was free until now.
    have hheld := haccounted.hold hfree
    obtain ⟨code, -, rfl⟩ := Gen.expression_eq_ok hheld.nodup hgenerated
    obtain ⟨hvalue, hkept, hgoesOn⟩ := hvalues r (g.hold [r]) code s hheld (by simp)
      (.inr (.inr (haccounted.spares hfree node))) hknows hgenerated
    refine ⟨code, (g.hold [r]).append_code_toList code, hvalue, ?_, ?_, hgoesOn⟩
    · intro r' hoperand
      cases hoperand
      exact ⟨by simp, fun _ => htaken⟩
    · intro r' hmem _
      refine hkept r' (by simp [hmem]) ?_
      rintro rfl
      exact hfree hmem

/-- **Operands from left to right**, when none of the nodes reads the destination. -/
theorem operandsIn_values {nodes : List Node} (hvalues : ∀ node ∈ nodes, E.Values env node)
    {scope scope' : Gen.Scope} {operands : List Operand} (haccounted : g.Accounted)
    (hreserved : scope.dst ∈ g.registers.reserved)
    (hspares : ∀ node ∈ nodes, g.Spares scope.dst node)
    (hknows : ∀ node ∈ nodes, Knows env g s.registers node)
    (h : Gen.operandsIn scope nodes g = .ok (operands, scope') g') :
    ∃ code, g'.code.toList = g.code.toList ++ code ∧
      E.evaluateAll env nodes s.trace =
        .ok (operands.map (E.read (E.run s code))) (E.run s code).trace ∧
      KeepsHeld g scope s (E.run s code) ∧ .hcf ∉ code := by
  induction nodes generalizing scope g s operands with
  | nil =>
    rw [Gen.operandsIn] at h
    cases h
    exact ⟨[], by simp, by rw [E.evaluateAll_nil]; rfl, fun _ _ _ => rfl, by simp⟩
  | cons node rest ih =>
    obtain ⟨operand, scope₁, g₁, more, hfirst, hlater, rfl⟩ := Gen.operandsIn_cons_cases h
    have hgathered := operandIn_gathered haccounted hfirst
    obtain ⟨code, hadded, hvalue, hheld, hkept, hgoesOn⟩ := operandIn_values
      (hvalues node (by simp)) haccounted hreserved (hspares node (by simp))
      (hknows node (by simp)) hfirst
    -- The names that the rest reads have other registers than the one that was written.
    have hknows₁ : ∀ n ∈ rest, Knows env g₁ (E.run s code).registers n := by
      intro n hmem
      refine (hknows n (List.mem_cons_of_mem _ hmem)).congr hgathered.bindings ?_
      intro name r hread hknown
      have hother := (hspares n (List.mem_cons_of_mem _ hmem)).ne hread hknown
      exact hkept r (haccounted.mem_reserved hknown) fun heq => absurd heq hother
    have hspares₁ : ∀ n ∈ rest, g₁.Spares scope₁.dst n :=
      fun n hmem => hgathered.spares (hspares n (List.mem_cons_of_mem _ hmem))
    obtain ⟨code', hadded', hvalueAll, hkept', hgoesOn'⟩ :=
      ih (fun n hmem => hvalues n (List.mem_cons_of_mem _ hmem)) hgathered.accounted
        (by rw [hgathered.dst]; exact hgathered.reserved _ hreserved) hspares₁ hknows₁ hlater
    refine ⟨code ++ code', by rw [hadded', hadded, List.append_assoc], ?_, ?_,
      by simp [hgoesOn, hgoesOn']⟩
    · -- What the first operand reads is not written by the others.
      have hread : E.read (E.run s (code ++ code')) operand = E.read (E.run s code) operand := by
        rw [Engine.run_append]
        exact E.read_congr fun r hoperand => hkept' r (hheld r hoperand).1 (hheld r hoperand).2
      rw [E.evaluateAll_cons, bind_apply hvalue, bind_apply hvalueAll, List.map_cons, hread,
        Engine.run_append]
      rfl
    · intro r hmem hother
      rw [Engine.run_append]
      have hafter := hkept' r (hgathered.reserved r hmem) fun heq =>
        hgathered.taken (hother (heq.trans hgathered.dst))
      exact hafter.trans (hkept r hmem hother)

/-- Operands that need no code are read where they are, also from the destination. -/
theorem operandsIn_plain_values {nodes : List Node}
    (hplain : ∀ node ∈ nodes, g.isPlain node = true) {scope scope' : Gen.Scope}
    {operands : List Operand} (hknows : ∀ node ∈ nodes, Knows env g s.registers node)
    (h : Gen.operandsIn scope nodes g = .ok (operands, scope') g') :
    g' = g ∧ E.evaluateAll env nodes s.trace = .ok (operands.map (E.read s)) s.trace := by
  induction nodes generalizing scope operands with
  | nil =>
    rw [Gen.operandsIn] at h
    cases h
    exact ⟨rfl, by rw [E.evaluateAll_nil]; rfl⟩
  | cons node rest ih =>
    obtain ⟨operand, scope₁, g₁, more, hfirst, hlater, rfl⟩ := Gen.operandsIn_cons_cases h
    have hpresent := Generator.operand?_of_isPlain (hplain node (by simp))
    -- Operands without code are found, so that the cases with code do not occur.
    rcases Gen.operandIn_cases hfirst with ⟨hknown, rfl, rfl⟩ | ⟨habsent, -⟩ | ⟨habsent, -⟩
    · obtain ⟨rfl, hvalueAll⟩ := ih (fun n hmem => hplain n (List.mem_cons_of_mem _ hmem))
        (fun n hmem => hknows n (List.mem_cons_of_mem _ hmem)) hlater
      refine ⟨rfl, ?_⟩
      rw [E.evaluateAll_cons, bind_apply (evaluate_of_operand? hknown (hknows node (by simp))),
        bind_apply hvalueAll]
      rfl
    · exact absurd habsent hpresent
    · exact absurd habsent hpresent

/-- **Operands before their instruction**: the code before it gathers the values of the nodes. -/
theorem withOperands_values {nodes : List Node} {use : List Operand → List Instruction}
    (hvalues : ∀ node ∈ nodes, E.Values env node) (haccounted : g.Accounted)
    (hreserved : dst ∈ g.registers.reserved) (hsafe : g.SafeOperands dst nodes)
    (hknows : ∀ node ∈ nodes, Knows env g s.registers node)
    (h : Gen.withOperands dst nodes use g = .ok () g') :
    ∃ operands code, g' = g.append (code ++ use operands) ∧ operands.length = nodes.length ∧
      (∀ instruction ∈ code, instruction.isStraight = true) ∧
      E.evaluateAll env nodes s.trace =
        .ok (operands.map (E.read (E.run s code))) (E.run s code).trace ∧
      KeepsOthers g dst s (E.run s code) ∧ .hcf ∉ code := by
  obtain ⟨operands, scope, temporaries, code, hgathered, hstraight, rfl⟩ :=
    Gen.withOperands_cases haccounted.nodup h
  refine ⟨operands, code, rfl, Gen.operandsIn_length hgathered, hstraight, ?_⟩
  rcases hsafe with hplain | hspares
  · -- Nothing is computed before the instruction.
    obtain ⟨hsame, hvalueAll⟩ := operandsIn_plain_values (E := E) hplain hknows hgathered
    have hadded : g.code.toList ++ code = g.code.toList := by
      rw [← g.append_code_toList code]
      exact congrArg (·.code.toList) hsame
    obtain rfl := List.append_right_eq_self.1 hadded
    exact ⟨hvalueAll, fun _ _ _ => rfl, by simp⟩
  · obtain ⟨code', hadded, hvalueAll, hkept, hgoesOn⟩ :=
      operandsIn_values hvalues haccounted hreserved hspares hknows hgathered
    have hsame : g.code.toList ++ code = g.code.toList ++ code' := by
      rw [← hadded]
      exact (g.append_code_toList code).symm
    obtain rfl := List.append_cancel_left hsame
    exact ⟨hvalueAll, fun r hmem hother => hkept r hmem fun heq => absurd heq hother, hgoesOn⟩

/-! ## Operations -/

/-- The last instruction of an operation writes the value to the destination. -/
theorem Valued.of_write (code : List Instruction) {instruction : Instruction} {v : V}
    {trace : Trace V} (hkept : KeepsOthers g dst s (E.run s code)) (hgoesOn : .hcf ∉ code)
    (hvalue : E.evaluate env node s.trace = .ok v trace) (hother : instruction ≠ .hcf)
    (hwrites : E.effect (E.run s code) instruction = (E.run s code).receive dst (v, trace)) :
    E.Valued env g dst node s (code ++ [instruction]) := by
  have hreached : E.run s (code ++ [instruction]) = (E.run s code).receive dst (v, trace) := by
    rw [Engine.run_append, Engine.run_cons, Engine.run_nil, hwrites]
  refine ⟨?_, ?_, ?_⟩
  · rw [hreached, hvalue]
    simp [Contents.receive]
  · intro r hmem hne
    rw [hreached]
    simp only [Contents.receive, Function.update_of_ne hne]
    exact hkept r hmem hne
  · simp only [List.mem_append, List.mem_singleton, not_or]
    exact ⟨hgoesOn, hother.symm⟩

/-- A value that is there already is moved to the destination. -/
theorem Valued.of_move {operand : Operand}
    (hvalue : E.evaluate env node s.trace = .ok (E.read s operand) s.trace) :
    E.Valued env g dst node s [.move dst operand] :=
  .of_write [] (fun _ _ _ => rfl) (by simp) hvalue (by simp) rfl

/-- **An operation**: operands are gathered, and one instruction writes what it makes of their
    values. -/
theorem operation_values {nodes : List Node} {use : List Operand → List Instruction}
    (finish : List V → Eval V V) (hvalues : ∀ part ∈ nodes, E.Values env part)
    (hevaluate : E.evaluate env node = E.evaluateAll env nodes >>= finish)
    (hfinish : ∀ operands : List Operand, operands.length = nodes.length →
      ∃ instruction, use operands = [instruction] ∧ instruction ≠ .hcf ∧
        ∀ s : Contents V, ∃ v trace, finish (operands.map (E.read s)) s.trace = .ok v trace ∧
          E.effect s instruction = s.receive dst (v, trace))
    (haccounted : g.Accounted) (hreserved : dst ∈ g.registers.reserved)
    (hsafe : g.SafeOperands dst nodes) (hknows : ∀ part ∈ nodes, Knows env g s.registers part)
    {code : List Instruction} (h : Gen.withOperands dst nodes use g = .ok () (g.append code)) :
    E.Valued env g dst node s code := by
  obtain ⟨operands, before, hsame, hlength, -, hgathered, hkept, hgoesOn⟩ :=
    withOperands_values hvalues haccounted hreserved hsafe hknows h
  obtain ⟨instruction, huse, hother, hwrites⟩ := hfinish operands hlength
  obtain rfl := Generator.append_injective hsame
  obtain ⟨v, trace, hfinished, hwritten⟩ := hwrites (E.run s before)
  rw [huse]
  refine .of_write before hkept hgoesOn ?_ hother hwritten
  rw [hevaluate, bind_apply hgathered, hfinished]

/-- An operation on one value.  Operands are gathered one for each node, so that no other number of
    values is met. -/
def finishOne (combine : V → V) : List V → Eval V V
  | [a] => return combine a
  | _ => throw .meaningless

/-- An operation on two values. -/
def finishTwo (combine : V → V → V) : List V → Eval V V
  | [a, b] => return combine a b
  | _ => throw .meaningless

/-- An operation on three values. -/
def finishThree (combine : V → V → V → V) : List V → Eval V V
  | [a, b, c] => return combine a b c
  | _ => throw .meaningless

/-- An operation on two values computes what its instruction makes of them. -/
theorem binary_values {left right : Node} (hvalue : node.isStatement = false)
    (hparts : node.parts = [left, right])
    (instruction : Register → Operand → Operand → Instruction) (combine : V → V → V)
    (hcode : ∀ dst, Gen.expression node dst =
      Gen.withOperands dst [left, right] (Gen.binaryCode fun a b => [instruction dst a b]))
    (hevaluate : E.evaluate env node = (do
      let a ← E.evaluate env left
      let b ← E.evaluate env right
      return combine a b))
    (hother : ∀ (dst : Register) (a b : Operand), instruction dst a b ≠ .hcf)
    (hwrites : ∀ (s : Contents V) (dst : Register) (a b : Operand),
      E.effect s (instruction dst a b) = s.write dst (combine (E.read s a) (E.read s b)))
    (hsimple : ∀ g : Generator, g.isPlain node = true ∨ g.isSingleInstruction node = true →
      g.isPlain left = true ∧ g.isPlain right = true)
    (hleft : E.Values env left) (hright : E.Values env right) : E.Values env node := by
  intro dst g code s haccounted hreserved hsafe hknows h
  rw [hcode] at h
  -- If the destination is a register of the node itself, then both operands are without code.
  have hoperands : g.SafeOperands dst node.parts := by
    refine hsafe.operands hvalue fun hplain part hmem => ?_
    rw [hparts] at hmem
    rcases List.mem_pair.1 hmem with rfl | rfl
    · exact (hsimple g hplain).1
    · exact (hsimple g hplain).2
  rw [hparts] at hoperands
  -- The operands are gathered, and the one instruction combines them.
  refine operation_values (finishTwo combine) ?_ ?_ ?_ haccounted hreserved hoperands ?_ h
  · intro part hmem
    rcases List.mem_pair.1 hmem with rfl | rfl
    · exact hleft
    · exact hright
  · simp [hevaluate, evaluateAll_two, finishTwo]
  · intro operands hlength
    obtain ⟨a, b, rfl⟩ := List.length_eq_two.1 hlength
    exact ⟨instruction dst a b, rfl, hother dst a b, fun s =>
      ⟨_, s.trace, rfl, hwrites s dst a b⟩⟩
  · rw [← hparts]
    exact fun part hmem => hknows.of_part hvalue hmem

theorem arithmetic_values (operator : Arithmetic) {left right : Node}
    (hleft : E.Values env left) (hright : E.Values env right) :
    E.Values env (.arithmetic operator left right) := by
  refine binary_values rfl rfl (.arithmetic operator) (E.arithmetic operator)
    (Gen.expression_arithmetic operator left right) (E.evaluate_arithmetic env operator left right)
    (fun _ _ _ => by simp) (fun _ _ _ _ => rfl) ?_ hleft hright
  simp [Generator.isPlain, Generator.isSingleInstruction]

theorem comparison_values (operator : Comparison) {left right : Node}
    (hleft : E.Values env left) (hright : E.Values env right) :
    E.Values env (.comparison operator left right) := by
  refine binary_values rfl rfl (.compare operator) (E.compare operator)
    (Gen.expression_comparison operator left right) (E.evaluate_comparison env operator left right)
    (fun _ _ _ => by simp) (fun _ _ _ _ => rfl) ?_ hleft hright
  simp [Generator.isPlain, Generator.isSingleInstruction]

/-- A negation compares with one. -/
theorem not_values {operand : Node} (hvalues : E.Values env operand) :
    E.Values env (.not operand) := by
  intro dst g code s haccounted hreserved hsafe hknows h
  rw [Gen.expression_not] at h
  have hoperands : g.SafeOperands dst [operand] := by
    refine hsafe.operands rfl ?_
    simp [Node.parts, Generator.isPlain, Generator.isSingleInstruction]
  refine operation_values (finishOne fun a => E.compare .less a (E.word "1")) ?_ ?_ ?_ haccounted
    hreserved hoperands ?_ h
  · simpa using hvalues
  · simp [E.evaluate_not, evaluateAll_one, finishOne]
  · intro operands hlength
    obtain ⟨a, rfl⟩ := List.length_eq_one_iff.1 hlength
    exact ⟨.compare .less dst a Gen.one, rfl, by simp, fun s => ⟨_, s.trace, rfl, rfl⟩⟩
  · exact fun part hmem => hknows.of_part rfl hmem

/-- A choice that is made by the chip computes all its parts. -/
theorem choice_values {condition thenValue elseValue : Node} (hunknown : condition.value? = none)
    (hvalues : ∀ part ∈ [condition, thenValue, elseValue], E.Values env part) :
    E.Values env (.choice condition thenValue elseValue) := by
  intro dst g code s haccounted hreserved hsafe hknows h
  rw [Gen.expression_choice _ _ _ hunknown] at h
  refine operation_values (finishThree E.select) hvalues ?_ ?_ haccounted hreserved
    (hsafe.operands rfl ?_) (fun part hmem => hknows.of_part rfl hmem) h
  · simp [E.evaluate_choice env _ _ _ hunknown, evaluateAll_three, finishThree]
  · intro operands hlength
    obtain ⟨c, a, b, rfl⟩ := List.length_eq_three.1 hlength
    exact ⟨.select dst c a b, rfl, by simp, fun s => ⟨_, s.trace, rfl, rfl⟩⟩
  · simp +contextual [Node.parts, Generator.isPlain, Generator.isSingleInstruction]

/-- What computes one part of a choice computes the choice, if that part is its value. -/
theorem Valued.choice {condition thenValue elseValue chosen : Node} {code : List Instruction}
    (h : E.Valued env g dst chosen s code)
    (hevaluate : E.evaluate env (.choice condition thenValue elseValue) = E.evaluate env chosen) :
    E.Valued env g dst (.choice condition thenValue elseValue) s code :=
  ⟨by rw [hevaluate]; exact h.value, h.kept, h.goesOn⟩

/-- A choice that is known computes one part only. -/
theorem choice_known_values {condition thenValue elseValue : Node} {x : Float}
    (hknown : condition.value? = some x) (hthen : E.Values env thenValue)
    (helse : E.Values env elseValue) :
    E.Values env (.choice condition thenValue elseValue) := by
  intro dst g code s haccounted hreserved hsafe hknows h
  have hevaluate := E.evaluate_choice_known env condition thenValue elseValue x hknown
  rw [Gen.expression_choice_known _ _ _ hknown] at h
  by_cases hnonzero : (x != 0.0) = true
  · rw [if_pos hnonzero] at h hevaluate
    have hvalued := hthen dst g code s haccounted hreserved (hsafe.choice_part (.inl rfl))
      (hknows.of_part rfl (by simp [Node.parts])) h
    exact hvalued.choice hevaluate
  · rw [if_neg hnonzero] at h hevaluate
    have hvalued := helse dst g code s haccounted hreserved (hsafe.choice_part (.inr rfl))
      (hknows.of_part rfl (by simp [Node.parts])) h
    exact hvalued.choice hevaluate

/-- A call of a function. -/
theorem call_values {name : String} {arguments : List Node}
    (hfunction : Vocabulary.Command.ofName? name = none)
    (hvalues : ∀ part ∈ arguments, E.Values env part) : E.Values env (.call name arguments) := by
  intro dst g code s haccounted hreserved hsafe hknows h
  cases harity : Vocabulary.functionArity? name with
  | none =>
    simp only [Gen.expression, hfunction, harity] at h
    cases h
  | some arity =>
    rw [Gen.expression_function arguments dst hfunction harity, bind_eq_ok] at h
    obtain ⟨⟨⟩, g₁, hchecked, h⟩ := h
    obtain ⟨rfl, rfl⟩ := Gen.checkArity_eq_ok hchecked
    refine operation_values (fun vs => .ofTrace (E.call name vs)) hvalues
      (E.evaluate_call env name arguments harity) ?_ haccounted hreserved (hsafe.operands rfl ?_)
      (fun part hmem => hknows.of_part rfl hmem) h
    · intro operands _
      exact ⟨.function name dst operands, rfl, by simp, fun s => ⟨_, _, rfl, rfl⟩⟩
    · simp [Node.parts, Generator.isPlain, Generator.isSingleInstruction]

/-! ## Reads and connectives -/

theorem load_values {name : String} {index : Option Node} {property : String}
    {config : DeviceConfig} (hvalues : ∀ part ∈ index.toList, E.Values env part)
    (hdevice : g.device? name = some config) (haccounted : g.Accounted)
    (hreserved : dst ∈ g.registers.reserved)
    (hsafe : g.Safe dst (.read name index (some property)))
    (hknows : Knows env g s.registers (.read name index (some property)))
    {code : List Instruction}
    (h : Gen.expression (.read name index (some property)) dst g = .ok () (g.append code)) :
    E.Valued env g dst (.read name index (some property)) s code := by
  rw [Gen.expression_load index property dst hdevice] at h
  have hmeaning : env name = some (.device config) := by
    rw [hknows name (by simp [Node.reads]), Generator.environment,
      Generator.binding?_eq_device.2 hdevice]
    rfl
  refine operation_values
    (fun slot => .ofTrace (E.ask (.load config.target slot.head? property))) hvalues
    (E.evaluate_load env name index property config hmeaning) ?_ haccounted hreserved
    (hsafe.operands rfl ?_) (fun part hmem => hknows.of_part rfl hmem) h
  · intro operands _
    refine ⟨.load dst config.target operands.head? property, rfl, by simp, fun s => ?_⟩
    refine ⟨_, _, rfl, ?_⟩
    simp only [Engine.effect, List.head?_map]
  · cases index <;> simp [Node.parts, Generator.isPlain, Generator.isSingleInstruction]

theorem read_values {name : String} {index : Option Node} {property : Option String}
    (hvalues : ∀ part ∈ index.toList, E.Values env part) :
    E.Values env (.read name index property) := by
  intro dst g code s haccounted hreserved hsafe hknows h
  -- A device is loaded from, and a variable is moved from its register.
  cases hdevice : g.device? name with
  | some config =>
    cases property with
    | none =>
      rw [Gen.expression, bind_apply get_apply] at h
      simp only [hdevice] at h
      cases h
    | some property => exact load_values hvalues hdevice haccounted hreserved hsafe hknows h
  | none =>
    rw [Gen.expression, bind_apply get_apply] at h
    simp only [hdevice] at h
    rw [bind_eq_ok] at h
    obtain ⟨r, g₁, hasked, h⟩ := h
    obtain ⟨hfound, rfl⟩ := Gen.query_eq_ok.1 hasked
    obtain ⟨hregister, rfl, rfl⟩ := Generator.registerOf_eq_ok hfound
    have hbinding := Generator.binding?_eq_register.2 ⟨hdevice, hregister⟩
    rw [Gen.emit_apply] at h
    obtain rfl := Generator.append_injective (EStateM.Result.ok.inj h).2
    exact .of_move (evaluate_register hbinding hknows)

/-- The three last instructions of a connective: both sides are compared with one, and the bitwise
    instruction joins them. -/
theorem run_connective {operator : Connective} {a b : Operand} {r : Register} (hother : r ≠ dst)
    (hright : ∀ r', b = .register r' → r' ≠ dst) :
    E.run s [.compare .greaterEqual dst a Gen.one, .compare .greaterEqual r b Gen.one,
        .bitwise operator dst (.register dst) (.register r)] =
      ((s.write dst (E.compare .greaterEqual (E.read s a) (E.word "1"))).write r
        (E.compare .greaterEqual (E.read s b) (E.word "1"))).write dst
          (E.bitwise operator (E.compare .greaterEqual (E.read s a) (E.word "1"))
            (E.compare .greaterEqual (E.read s b) (E.word "1"))) := by
  -- The right side is not where the left side has just been written.
  have hunchanged : ∀ v, E.read (s.write dst v) b = E.read s b :=
    fun v => E.read_congr fun r' hoperand => s.write_registers_of_ne v (hright r' hoperand)
  have hone : ∀ t : Contents V, E.read t Gen.one = E.word "1" := fun _ => rfl
  simp only [Engine.run_cons, Engine.run_nil, Engine.effect, hone, hunchanged,
    Engine.read_register, Contents.write_registers_self]
  rw [Contents.write_registers_of_ne _ _ hother.symm, Contents.write_registers_self]

theorem connective_values (operator : Connective) {left right : Node}
    (hleft : E.Values env left) (hright : E.Values env right) :
    E.Values env (.connective operator left right) := by
  intro dst g code s haccounted hreserved hsafe hknows h
  have hmemLeft : left ∈ (Node.connective operator left right).parts := by simp [Node.parts]
  have hmemRight : right ∈ (Node.connective operator left right).parts := by simp [Node.parts]
  have hsparesLeft : g.Spares dst left := hsafe.connective.part rfl hmemLeft
  have hsparesRight : g.Spares dst right := hsafe.connective.part rfl hmemRight
  obtain ⟨a, b, r, before, between, hfree, hmadeLeft, hmadeRight, hsame⟩ :=
    Gen.connective_cases haccounted.nodup h
  obtain rfl := Generator.append_injective hsame
  have hother : r ≠ dst := fun heq => hfree (heq ▸ hreserved)
  obtain ⟨scope₁, hgathered₁⟩ := materialize_gathers hmadeLeft
  obtain ⟨scope₂, hgathered₂⟩ := materialize_gathers hmadeRight
  obtain ⟨code₁, hadded₁, hvalue₁, hheld₁, hkept₁, hgoesOn₁⟩ := operandIn_values hleft haccounted
    hreserved hsparesLeft (hknows.of_part rfl hmemLeft) hgathered₁
  obtain rfl : before = code₁ := by simpa using hadded₁
  have hkeptOthers₁ : KeepsOthers g dst s (E.run s before) := fun r' hmem hne =>
    hkept₁ r' hmem fun heq => absurd heq hne
  -- The right side reads the same names as before: none of them is in the destination.
  have hknows₁ : Knows env ((g.append before).hold [r]) (E.run s before).registers right := by
    refine (hknows.of_part rfl hmemRight).congr (fun _ => rfl) ?_
    intro name r' hread hknown
    exact hkeptOthers₁ r' (haccounted.mem_reserved hknown) (hsparesRight.ne hread hknown)
  have haccounted₂ : ((g.append before).hold [r]).Accounted :=
    (haccounted.append before).hold hfree
  have hspares₂ : ((g.append before).hold [r]).Spares r right := haccounted.spares hfree right
  obtain ⟨code₂, hadded₂, hvalue₂, -, hkept₂, hgoesOn₂⟩ := operandIn_values hright haccounted₂
    (by simp [Gen.Scope.opened]) hspares₂ hknows₁ hgathered₂
  obtain rfl : between = code₂ := by simpa using hadded₂
  have hkeptAll : ∀ r' ∈ g.registers.reserved,
      (E.run s (before ++ between)).registers r' = (E.run s before).registers r' := by
    intro r' hmem
    rw [Engine.run_append]
    refine hkept₂ r' (List.mem_cons_of_mem _ hmem) fun heq => ?_
    exact absurd hmem (heq ▸ hfree)
  have hreadLeft : E.read (E.run s (before ++ between)) a = E.read (E.run s before) a :=
    E.read_congr fun r' hoperand => hkeptAll r' (hheld₁ r' hoperand).1
  have hseparate : ∀ r', b = .register r' → r' ≠ dst := fun r' hoperand =>
    materialize_register hmadeRight hsparesRight hother hoperand
  -- Both values are there before the last three instructions, which join them in the destination.
  refine ⟨?_, ?_, by simp [hgoesOn₁, hgoesOn₂]⟩
  · rw [E.evaluate_connective, bind_apply hvalue₁, bind_apply hvalue₂, Engine.run_append,
      run_connective hother hseparate, hreadLeft, Engine.run_append]
    simp [pure, EStateM.pure]
  · intro r' hmem hne
    have htemporary : r' ≠ r := fun heq => hfree (heq ▸ hmem)
    rw [Engine.run_append, run_connective hother hseparate,
      Contents.write_registers_of_ne _ _ hne, Contents.write_registers_of_ne _ _ htemporary,
      Contents.write_registers_of_ne _ _ hne, hkeptAll r' hmem]
    exact hkeptOthers₁ r' hmem hne

/-! ## The main result -/

/-- **Code for an expression leaves its value in the destination**, whatever the registers hold, if
    no command stands where a value is expected. -/
theorem expression_values (E : Calculator V) (env : Environment V) (node : Node)
    (hpure : node.hasCommand = false) : E.Values env node := by
  -- By induction on the parts; each case has its own lemma, which asks for the parts it has.
  induction node using Node.partsInduction with
  | step node ih =>
    have hparts : node.isStatement = false → ∀ part ∈ node.parts, E.Values env part :=
      fun hvalue part hmem => ih part hmem (Node.hasCommand_part hpure hvalue hmem)
    cases node with
    | arithmetic operator left right =>
      exact arithmetic_values operator (hparts rfl left (by simp [Node.parts]))
        (hparts rfl right (by simp [Node.parts]))
    | comparison operator left right =>
      exact comparison_values operator (hparts rfl left (by simp [Node.parts]))
        (hparts rfl right (by simp [Node.parts]))
    | connective operator left right =>
      exact connective_values operator (hparts rfl left (by simp [Node.parts]))
        (hparts rfl right (by simp [Node.parts]))
    | not operand => exact not_values (hparts rfl operand (by simp [Node.parts]))
    | choice condition thenValue elseValue =>
      -- A known condition has no code, and only one of the values has.
      cases hknown : condition.value? with
      | some x =>
        exact choice_known_values hknown (hparts rfl thenValue (by simp [Node.parts]))
          (hparts rfl elseValue (by simp [Node.parts]))
      | none => exact choice_values hknown (hparts rfl)
    | read name index property => exact read_values (hparts rfl)
    | call name arguments =>
      have hfunction : Vocabulary.Command.ofName? name = none := by
        rw [Node.hasCommand, Bool.or_eq_false_iff] at hpure
        simpa [Vocabulary.isCommand] using hpure.1
      exact call_values hfunction (hparts rfl)
    | number text | constant text | hash text =>
      intro dst g code s haccounted hreserved hsafe hknows h
      rw [Gen.expression, Gen.emit_apply] at h
      obtain rfl := Generator.append_injective (EStateM.Result.ok.inj h).2
      exact .of_move (evaluate_of_operand? rfl hknows)
    | device config | block body | declare name value | assign name index property value | loop body
      | whileLoop condition body | branch condition thenBranch elseBranch | control kind =>
      intro dst g code s haccounted hreserved hsafe hknows h
      rw [Gen.expression] at h
      · cases h
      all_goals simp

/-! ## Variables -/

variable {value : Node} {code : List Instruction}

/-- The code for a value that is kept in a register. -/
theorem computeInto_values (hpure : node.hasCommand = false) (haccounted : g.Accounted)
    (hreserved : dst ∈ g.registers.reserved) (hspares : g.Spares dst node)
    (hknows : Knows env g s.registers node)
    (h : Gen.computeInto dst node g = .ok () (g.append code)) :
    E.Valued env g dst node s code := by
  rcases Gen.computeInto_cases h with ⟨operand, hknown, hsame⟩ | ⟨-, hgenerated⟩
  · obtain rfl := Generator.append_injective hsame
    exact .of_move (evaluate_of_operand? hknown hknows)
  · exact expression_values E env node hpure dst g code s haccounted hreserved
      (.inr (.inr hspares)) hknows hgenerated

/-- **The code for the new value of a variable**, which is computed aside, or in place where nothing
    but its last instruction touches the variable. -/
theorem variableStore_values {name : String} {index : Option Node} {property : Option String}
    (hseparate : g.Separate) (hpure : value.hasCommand = false)
    (h : Gen.variableStore name index property value g = .ok () g') :
    ∃ r code, g.variableTable.lookup name = some r ∧ index = none ∧ property = none ∧
      g' = g.append code ∧ (∀ instruction ∈ code, instruction.isStraight = true) ∧
      ∀ (E : Calculator V) (env : Environment V) (s : Contents V),
        Knows env g s.registers value → E.Valued env g r value s code := by
  have haccounted := hseparate.accounted
  obtain ⟨r, hlookup, hindex, hproperty, hcases⟩ := Gen.variableStore_cases hseparate.nodup h
  have hreserved := hseparate.reserved hlookup
  rcases hcases with ⟨operand, hplain, rfl⟩ | ⟨t, code, -, hfree, hstraight, hcomputed, rfl⟩ |
    ⟨-, hapart, hcomputed⟩
  · -- The value is there already.
    refine ⟨r, _, hlookup, hindex, hproperty, rfl, by simp [Instruction.isStraight], ?_⟩
    exact fun E env s hknows => .of_move (evaluate_of_operand? hplain hknows)
  · -- The value is computed aside and moved.  The code up to the move changes no register in use.
    refine ⟨r, _, hlookup, hindex, hproperty, rfl, ?_, fun E env s hknows => ?_⟩
    · intro instruction hmem
      rcases List.mem_append.1 hmem with hmem | hmem
      · exact hstraight instruction hmem
      · exact List.mem_singleton.1 hmem ▸ rfl
    · have hvalued : E.Valued env (g.hold [t]) t value s code :=
        expression_values E env value hpure t (g.hold [t]) code s (haccounted.hold hfree) (by simp)
          (.inr (.inr (haccounted.spares hfree value))) hknows hcomputed
      have hkept : KeepsOthers g r s (E.run s code) := fun r' hmem _ =>
        hvalued.kept r' (List.mem_cons_of_mem _ hmem) fun heq => hfree (heq ▸ hmem)
      exact .of_write code hkept hvalued.goesOn hvalued.value (by simp) rfl
  · -- In place, the value does not read the variable or is the work of one instruction.
    obtain ⟨code, hstraight, rfl⟩ := Gen.expression_eq_ok hseparate.nodup hcomputed
    have hsafe : g.Safe r value :=
      .of_apart (fun other hknown => hseparate.eq_of_binding? hlookup hknown) hapart
    exact ⟨r, code, hlookup, hindex, hproperty, rfl, hstraight, fun E env s hknows =>
      expression_values E env value hpure r g code s haccounted hreserved hsafe hknows hcomputed⟩

end Calculator
end ChipScript
