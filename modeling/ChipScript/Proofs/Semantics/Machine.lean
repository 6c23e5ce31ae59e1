import ChipScript.Proofs.Semantics.Setting

/-!
# Runs of code

The chip takes one step after another: it looks up the instruction at its index and performs it.
A label does nothing, jumps and branches go to the label of their name, and a relative branch adds
its offset to the index.  `Chip.Leads` says that steps lead from one state to another,
`Chip.LeadsIn` how many there are at least.
-/

namespace ChipScript

/-! ## States -/

/-- Whether a chip goes on. -/
inductive Status where
  | running
  /-- There is no instruction at the index. -/
  | ended
  | halted
  /-- A jump went to nowhere. -/
  | lost
deriving DecidableEq

/-- The state of a chip. -/
structure Machine (V : Type) where
  index : Nat
  registers : Register → V
  trace : Trace V
  status : Status

namespace Machine

variable {V : Type}

/-- The state before the first instruction. -/
def initial (registers : Register → V) : Machine V :=
  ⟨0, registers, [], .running⟩

/-- Goes on with the next instruction. -/
def next (m : Machine V) : Machine V :=
  { m with index := m.index + 1 }

/-- Goes on after a register has been written. -/
def write (m : Machine V) (dst : Register) (value : V) : Machine V :=
  { m with registers := Function.update m.registers dst value, index := m.index + 1 }

/-- Goes on some lines further down or up. -/
def moveBy (m : Machine V) (offset : Int) : Machine V :=
  if 0 ≤ m.index + offset then { m with index := (m.index + offset).toNat }
  else { m with status := .lost }

/-- Goes on after an event. -/
def record (m : Machine V) (event : Event V) : Machine V :=
  { m with trace := m.trace ++ [event], index := m.index + 1 }

end Machine

/-- The value of an operand. -/
def Operand.value {V : Type} [LinearOrder V] (I : Interpretation V) (registers : Register → V) :
    Operand → V
  | register r => registers r
  | immediate text => I.word text

/-- The place of a label. -/
def labelIndex? (code : List Instruction) (name : String) : Option Nat :=
  code.findIdx? (· = .label name)

/-! ## Steps -/

/-- A chip with its code, in its surroundings. -/
structure Chip (V : Type) [LinearOrder V] where
  setting : Setting V
  code : List Instruction

namespace Chip

variable {V : Type} [LinearOrder V] (chip : Chip V)

/-- The value of an operand in a state. -/
def read (m : Machine V) (operand : Operand) : V :=
  operand.value chip.setting.toInterpretation m.registers

/-- Goes on at a label. -/
def jumpTo (m : Machine V) (name : String) : Machine V :=
  match labelIndex? chip.code name with
  | some index => { m with index }
  | none => { m with status := .lost }

/-- Performs an instruction. -/
def perform (m : Machine V) : Instruction → Machine V
  | .label _ => m.next
  | .move dst source => m.write dst (chip.read m source)
  | .arithmetic operator dst left right =>
    m.write dst (chip.setting.arithmetic operator (chip.read m left) (chip.read m right))
  | .compare comparison dst left right =>
    m.write dst (chip.setting.truth (comparison.compares (chip.read m left) (chip.read m right)))
  | .bitwise operator dst left right =>
    m.write dst (chip.setting.bitwise operator (chip.read m left) (chip.read m right))
  | .select dst condition thenValue elseValue =>
    m.write dst (if chip.setting.selects (chip.read m condition) then chip.read m thenValue
      else chip.read m elseValue)
  | .jump target => chip.jumpTo m target
  | .branch comparison left right target =>
    if comparison.compares (chip.read m left) (chip.read m right) then chip.jumpTo m target
    else m.next
  | .branchRelative comparison left right offset =>
    if comparison.compares (chip.read m left) (chip.read m right) then m.moveBy offset
    else m.next
  | .load dst device slot property =>
    let (value, trace) := chip.setting.ask (.load device (slot.map (chip.read m)) property) m.trace
    { m with trace }.write dst value
  | .store device slot property value =>
    m.record (.store device (slot.map (chip.read m)) property (chip.read m value))
  | .sleep duration => m.record (.sleep (chip.read m duration))
  | .yield => m.record .yield
  | .hcf => { m with status := .halted }
  | .function name dst arguments =>
    let (value, trace) := chip.setting.call name (arguments.map (chip.read m)) m.trace
    { m with trace }.write dst value

/-- One step.  A chip that has stopped stays as it is. -/
def step (m : Machine V) : Machine V :=
  match m.status with
  | .running =>
    match chip.code[m.index]? with
    | some instruction => chip.perform m instruction
    | none => { m with status := .ended }
  | _ => m

/-- The state after a number of steps. -/
def after (steps : Nat) (m : Machine V) : Machine V :=
  chip.step^[steps] m

/-! ## Runs -/

/-- Steps, at least a given number of them, lead from one state to another. -/
def LeadsIn (least : Nat) (m m' : Machine V) : Prop :=
  ∃ steps, least ≤ steps ∧ chip.after steps m = m'

/-- Steps lead from one state to another. -/
def Leads (m m' : Machine V) : Prop :=
  chip.LeadsIn 0 m m'

variable {chip}

theorem after_add (first second : Nat) (m : Machine V) :
    chip.after (first + second) m = chip.after second (chip.after first m) := by
  rw [after, Nat.add_comm, Function.iterate_add_apply]
  rfl

theorem after_succ (steps : Nat) (m : Machine V) :
    chip.after (steps + 1) m = chip.step (chip.after steps m) :=
  Function.iterate_succ_apply' _ _ _

theorem LeadsIn.trans {least more : Nat} {m m' m'' : Machine V} (hfirst : chip.LeadsIn least m m')
    (hsecond : chip.LeadsIn more m' m'') : chip.LeadsIn (least + more) m m'' := by
  obtain ⟨a, ha, rfl⟩ := hfirst
  obtain ⟨b, hb, rfl⟩ := hsecond
  exact ⟨a + b, Nat.add_le_add ha hb, after_add a b m⟩

theorem LeadsIn.mono {least more : Nat} {m m' : Machine V} (h : chip.LeadsIn more m m')
    (hle : least ≤ more) : chip.LeadsIn least m m' := by
  obtain ⟨steps, hs, hreached⟩ := h
  exact ⟨steps, Nat.le_trans hle hs, hreached⟩

theorem LeadsIn.leads {least : Nat} {m m' : Machine V} (h : chip.LeadsIn least m m') :
    chip.Leads m m' :=
  h.mono (Nat.zero_le least)

theorem Leads.refl (m : Machine V) : chip.Leads m m :=
  ⟨0, Nat.le_refl 0, rfl⟩

theorem Leads.trans {m m' m'' : Machine V} (hfirst : chip.Leads m m')
    (hsecond : chip.Leads m' m'') :
    chip.Leads m m'' :=
  LeadsIn.trans hfirst hsecond

theorem LeadsIn.after_leads {least : Nat} {m m' m'' : Machine V} (hfirst : chip.Leads m m')
    (hsecond : chip.LeadsIn least m' m'') : chip.LeadsIn least m m'' :=
  (LeadsIn.trans hfirst hsecond).mono (by omega)

/-- One step performs the instruction at the index. -/
theorem leadsIn_perform {m : Machine V} {instruction : Instruction}
    (hrunning : m.status = .running) (hfetched : chip.code[m.index]? = some instruction) :
    chip.LeadsIn 1 m (chip.perform m instruction) := by
  refine ⟨1, Nat.le_refl 1, ?_⟩
  simp [after, step, hrunning, hfetched]

theorem leads_perform {m : Machine V} {instruction : Instruction}
    (hrunning : m.status = .running) (hfetched : chip.code[m.index]? = some instruction) :
    chip.Leads m (chip.perform m instruction) :=
  (leadsIn_perform hrunning hfetched).leads

/-! ## Traces -/

/-- Nothing that has happened is undone by a step. -/
theorem trace_prefix_step (m : Machine V) : m.trace <+: (chip.step m).trace := by
  unfold step
  split
  · split
    · rename_i instruction _
      cases instruction with
      | load dst device slot property =>
        exact List.prefix_append _ _
      | store device slot property value => exact List.prefix_append _ _
      | sleep duration => exact List.prefix_append _ _
      | yield => exact List.prefix_append _ _
      | function name dst arguments =>
        simp only [perform, Setting.call, Machine.write]
        split
        · exact List.prefix_append _ _
        · exact List.prefix_rfl
      | jump target =>
        simp only [perform, jumpTo]
        split <;> exact List.prefix_rfl
      | branch comparison left right target =>
        simp only [perform, jumpTo]
        split
        · split <;> exact List.prefix_rfl
        · exact List.prefix_rfl
      | branchRelative comparison left right offset =>
        simp only [perform, Machine.moveBy]
        split
        · split <;> exact List.prefix_rfl
        · exact List.prefix_rfl
      -- The others write a register, or nothing.
      | _ => exact List.prefix_rfl
    · exact List.prefix_rfl
  · exact List.prefix_rfl

theorem trace_prefix_after (steps : Nat) (m : Machine V) :
    m.trace <+: (chip.after steps m).trace := by
  induction steps with
  | zero => exact List.prefix_rfl
  | succ steps ih =>
    rw [after_succ]
    exact ih.trans (trace_prefix_step _)

/-! ## Runs that stop -/

/-- A chip that has stopped stays as it is. -/
theorem after_of_stopped {m : Machine V} (hstopped : m.status ≠ .running) (steps : Nat) :
    chip.after steps m = m := by
  have hfixed : chip.step m = m := by
    unfold step
    split
    · contradiction
    · rfl
  exact Function.iterate_fixed hfixed steps

/-- A chip that is running has been running all the time. -/
theorem running_of_le {m : Machine V} {first second : Nat} (hle : first ≤ second)
    (h : (chip.after second m).status = .running) : (chip.after first m).status = .running := by
  obtain ⟨more, rfl⟩ := Nat.exists_eq_add_of_le hle
  by_contra hstopped
  rw [after_add, after_of_stopped hstopped] at h
  exact hstopped h

/-- A run stops in one state only. -/
theorem stopped_unique {m : Machine V} {first second : Nat}
    (h₁ : (chip.after first m).status ≠ .running) (h₂ : (chip.after second m).status ≠ .running) :
    chip.after first m = chip.after second m := by
  rcases Nat.le_total first second with hle | hle
  · obtain ⟨more, rfl⟩ := Nat.exists_eq_add_of_le hle
    rw [after_add, after_of_stopped h₁]
  · obtain ⟨more, rfl⟩ := Nat.exists_eq_add_of_le hle
    rw [after_add, after_of_stopped h₂]

end Chip
end ChipScript
