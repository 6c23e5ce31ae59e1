import ChipScript.Proofs.Chip.RegisterDiscipline
import ChipScript.Proofs.Step

/-!
# What a success says

If a step of code generation has succeeded, the steps that it is made of have, and the states in
between are known.  Each lemma says once what one kind of step can have done; facts about generated
code follow these cases.
-/

namespace ChipScript

/-! ## Names -/

/-- What a generator knows a name to stand for. -/
inductive Binding where
  | register (register : Register)
  | device (config : DeviceConfig)
deriving DecidableEq

namespace Generator

/-- What a name stands for. -/
def binding? (g : Generator) (name : String) : Option Binding :=
  match g.device? name with
  | some config => some (.device config)
  | none => (g.variableTable.lookup name).map .register

/-- The state in which a name stands for devices. -/
def declareDevice (g : Generator) (name : String) (config : DeviceConfig) : Generator :=
  { g with deviceTable := (name, config) :: g.deviceTable }

/-- The state in which a name is that of a variable. -/
def declareVariable (g : Generator) (name : String) (r : Register) : Generator :=
  { g with variableTable := (name, r) :: g.variableTable }

/-- The state in which one label more has been made. -/
def labelled (g : Generator) (stem : String) : Generator :=
  { g with labels := (g.labels.next stem).2 }

/-- The label that is made next. -/
def nextLabel (g : Generator) (stem : String) : String :=
  (g.labels.next stem).1

/-- The state inside one loop more. -/
def inside (g : Generator) (labels : LoopLabels) : Generator :=
  { g with loops := LoopStack.push g.loops labels }

/-- The state behind the innermost loop, after the jump back and the label at the end. -/
def closed (g : Generator) (labels : LoopLabels) : Generator :=
  { g.append [.jump labels.againTo, .label labels.leaveTo] with loops := LoopStack.pop g.loops }

/-- The labels of a loop that is begun in a state. -/
def loopLabels (g : Generator) (startStem endStem : String) : LoopLabels :=
  ⟨(g.labelled startStem).nextLabel endStem, g.nextLabel startStem⟩

/-- The state behind the label at the start of a loop. -/
def entered (g : Generator) (startStem endStem : String) : Generator :=
  (((g.labelled startStem).labelled endStem).inside (g.loopLabels startStem endStem)).append
    [.label (g.loopLabels startStem endStem).againTo]

theorem binding?_eq_device {g : Generator} {name : String} {config : DeviceConfig} :
    g.binding? name = some (.device config) ↔ g.device? name = some config := by
  unfold binding?
  split <;> simp_all

theorem binding?_eq_register {g : Generator} {name : String} {r : Register} :
    g.binding? name = some (.register r) ↔
      g.device? name = none ∧ g.variableTable.lookup name = some r := by
  unfold binding?
  split <;> simp_all

theorem binding?_eq_none {g : Generator} {name : String} :
    g.binding? name = none ↔ g.device? name = none ∧ g.variableTable.lookup name = none := by
  unfold binding?
  split <;> simp_all

theorem binding?_declareDevice (g : Generator) (name other : String) (config : DeviceConfig) :
    (g.declareDevice name config).binding? other =
      if other = name then some (.device config) else g.binding? other := by
  by_cases hsame : other = name
  · simp [binding?, declareDevice, device?, hsame]
  · have hdiffers : (other == name) = false := by simpa using hsame
    simp [binding?, declareDevice, device?, List.lookup_cons, hsame, hdiffers]

theorem binding?_declareVariable {g : Generator} {name : String} (hfree : g.binding? name = none)
    (other : String) (r : Register) :
    (g.declareVariable name r).binding? other =
      if other = name then some (.register r) else g.binding? other := by
  obtain ⟨hnoDevice, -⟩ := binding?_eq_none.1 hfree
  by_cases hsame : other = name
  · rw [hsame, if_pos rfl, binding?_eq_register]
    exact ⟨hnoDevice, by simp [declareVariable]⟩
  · have hdiffers : (other == name) = false := by simpa using hsame
    simp [binding?, declareVariable, device?, List.lookup_cons, hsame, hdiffers]

theorem registerOf_eq_ok {g : Generator} {name : String} {index : Option Node}
    {property : Option String} {r : Register} (h : g.registerOf name index property = .ok r) :
    g.variableTable.lookup name = some r ∧ index = none ∧ property = none := by
  unfold registerOf at h
  split at h
  · cases h
  · next register hknown =>
    split at h
    · cases h
    · next hbare =>
      obtain rfl := Except.ok.inj h
      simp only [Bool.or_eq_true, not_or, Bool.not_eq_true, Option.isSome_eq_false_iff,
        Option.isNone_iff_eq_none] at hbare
      exact ⟨hknown, hbare.2, hbare.1⟩

end Generator

namespace Gen

variable {g g' : Generator}

/-! ## Elementary steps -/

theorem query_eq_ok {α : Type} {ask : Generator → Except CodeError α} {a : α} :
    query ask g = .ok a g' ↔ ask g = .ok a ∧ g' = g := by
  unfold query
  cases ask g with
  | ok b => simp [eq_comm]
  | error e => simp

theorem newLabel_apply (stem : String) :
    newLabel stem g = .ok (g.nextLabel stem) (g.labelled stem) := rfl

theorem checkArity_eq_ok {name : String} {expected found : Nat}
    (h : checkArity name expected found g = .ok () g') : expected = found ∧ g' = g := by
  unfold checkArity at h
  split at h
  · next hsame =>
    cases h
    exact ⟨hsame, rfl⟩
  · cases h

theorem reserveBy_eq_ok {candidates : List Register} {r : Register}
    (h : reserveBy (·.take candidates) g = .ok r g') :
    r ∉ g.registers.reserved ∧ g' = g.hold [r] := by
  rcases reserveBy_take candidates g with ⟨r', hfree, htaken⟩ | hfailed
  · rw [htaken] at h
    cases h
    exact ⟨hfree, rfl⟩
  · rw [hfailed] at h
    cases h

/-- The code of a value is straight-line code. -/
theorem expression_eq_ok {node : Node} {dst : Register} (hnodup : g.registers.reserved.Nodup)
    (h : expression node dst g = .ok () g') :
    ∃ code, (∀ instruction ∈ code, instruction.isStraight = true) ∧ g' = g.append code := by
  have houtcome := expression_outcome node dst g hnodup
  rw [h] at houtcome
  exact houtcome

/-! ## Operands -/

/-- An operand needs no code, or it is computed into the destination, or into a temporary. -/
theorem operandIn_cases {scope scope' : Scope} {node : Node} {generate : Register → Gen Unit}
    {operand : Operand} (h : operandIn scope node generate g = .ok (operand, scope') g') :
    (g.operand? node = .ok (some operand) ∧ scope' = scope ∧ g' = g) ∨
    (g.operand? node = .ok none ∧ scope.taken = false ∧ generate scope.dst g = .ok () g' ∧
      operand = .register scope.dst ∧ scope' = { scope with taken := true }) ∨
    (g.operand? node = .ok none ∧ scope.taken = true ∧ ∃ r, r ∉ g.registers.reserved ∧
      generate r (g.hold [r]) = .ok () g' ∧ operand = .register r ∧
      scope' = { scope with temporaries := scope.temporaries ++ [r] }) := by
  unfold operandIn at h
  rw [bind_eq_ok] at h
  obtain ⟨found, g₁, hasked, h⟩ := h
  obtain ⟨hanswer, rfl⟩ := query_eq_ok.1 hasked
  cases found with
  | some known =>
    obtain ⟨hsame, rfl⟩ := pure_eq_ok.1 h
    obtain ⟨rfl, rfl⟩ := Prod.mk.inj hsame
    exact .inl ⟨hanswer, rfl, rfl⟩
  | none =>
    right
    -- Only the first operand that is computed may use the destination of the instruction.
    by_cases htaken : scope.taken = true
    · right
      simp only [htaken, if_true] at h
      rw [bind_eq_ok] at h
      obtain ⟨r, g₂, hreserved, h⟩ := h
      obtain ⟨hfree, rfl⟩ := reserveBy_eq_ok hreserved
      rw [bind_eq_ok] at h
      obtain ⟨⟨⟩, g₃, hgenerated, h⟩ := h
      obtain ⟨hsame, rfl⟩ := pure_eq_ok.1 h
      obtain ⟨rfl, rfl⟩ := Prod.mk.inj hsame
      exact ⟨hanswer, htaken, r, hfree, hgenerated, rfl, by rw [htaken]⟩
    · left
      simp only [htaken] at h
      rw [if_neg (by simp), bind_eq_ok] at h
      obtain ⟨⟨⟩, g₂, hgenerated, h⟩ := h
      obtain ⟨hsame, rfl⟩ := pure_eq_ok.1 h
      obtain ⟨rfl, rfl⟩ := Prod.mk.inj hsame
      exact ⟨hanswer, by simpa using htaken, hgenerated, rfl, rfl⟩

/-- An operand that stands alone is computed into the destination if it needs code. -/
theorem materialize_cases {node : Node} {generate : Register → Gen Unit} {dst : Register}
    {operand : Operand} (h : materialize node generate dst g = .ok operand g') :
    (g.operand? node = .ok (some operand) ∧ g' = g) ∨
    (g.operand? node = .ok none ∧ generate dst g = .ok () g' ∧ operand = .register dst) := by
  unfold materialize at h
  rw [bind_eq_ok] at h
  obtain ⟨found, g₁, hasked, h⟩ := h
  obtain ⟨hanswer, rfl⟩ := query_eq_ok.1 hasked
  cases found with
  | some known =>
    obtain ⟨rfl, rfl⟩ := pure_eq_ok.1 h
    exact .inl ⟨hanswer, rfl⟩
  | none =>
    rw [bind_eq_ok] at h
    obtain ⟨⟨⟩, g₂, hgenerated, h⟩ := h
    obtain ⟨rfl, rfl⟩ := pure_eq_ok.1 h
    exact .inr ⟨hanswer, hgenerated, rfl⟩

/-- Operands are gathered one after the other. -/
theorem operandsIn_cons_cases {node : Node} {rest : List Node} {scope scope' : Scope}
    {operands : List Operand}
    (h : operandsIn scope (node :: rest) g = .ok (operands, scope') g') :
    ∃ operand scope₁ g₁ more,
      operandIn scope node (expression node) g = .ok (operand, scope₁) g₁ ∧
      operandsIn scope₁ rest g₁ = .ok (more, scope') g' ∧ operands = operand :: more := by
  rw [operandsIn, bind_eq_ok] at h
  obtain ⟨⟨operand, scope₁⟩, g₁, hfirst, h⟩ := h
  rw [bind_eq_ok] at h
  obtain ⟨⟨more, scope₂⟩, g₂, hlater, h⟩ := h
  obtain ⟨hsame, rfl⟩ := pure_eq_ok.1 h
  obtain ⟨rfl, rfl⟩ := Prod.mk.inj hsame
  exact ⟨operand, scope₁, g₁, more, hfirst, hlater, rfl⟩

/-- There is one operand for each node. -/
theorem operandsIn_length {nodes : List Node} {scope scope' : Scope} {operands : List Operand}
    (h : operandsIn scope nodes g = .ok (operands, scope') g') :
    operands.length = nodes.length := by
  induction nodes generalizing scope g operands with
  | nil =>
    rw [operandsIn] at h
    cases h
    rfl
  | cons node rest ih =>
    obtain ⟨operand, scope₁, g₁, more, -, hlater, rfl⟩ := operandsIn_cons_cases h
    rw [List.length_cons, List.length_cons, ih hlater]

/-- Gathered operands are in registers that stay in use until the code that uses them is there. -/
theorem withOperands_cases {dst : Register} {nodes : List Node}
    {use : List Operand → List Instruction} (hnodup : g.registers.reserved.Nodup)
    (h : withOperands dst nodes use g = .ok () g') :
    ∃ operands scope temporaries code,
      operandsIn (.opened dst) nodes g =
        .ok (operands, scope) ((g.append code).hold temporaries) ∧
      (∀ instruction ∈ code, instruction.isStraight = true) ∧
      g' = g.append (code ++ use operands) := by
  unfold withOperands at h
  rw [bind_eq_ok] at h
  obtain ⟨⟨operands, scope⟩, g₁, hgathered, h⟩ := h
  have houtcome := operandsIn_outcome nodes (fun node _ => expression_outcome node)
    (.opened dst) hnodup
  rw [hgathered] at houtcome
  obtain ⟨temporaries, code, hlisted, hstraight, hheld, rfl⟩ := houtcome
  refine ⟨operands, scope, temporaries.reverse, code, hgathered, hstraight, ?_⟩
  have hlisted' : scope.temporaries = temporaries := hlisted
  cases (closeScope_gathered code (use operands) hlisted' hheld).symm.trans h
  rfl

theorem materialize_eq_ok {node : Node} {dst : Register} {operand : Operand}
    (hnodup : g.registers.reserved.Nodup)
    (h : materialize node (expression node) dst g = .ok operand g') :
    ∃ code, (∀ instruction ∈ code, instruction.isStraight = true) ∧ g' = g.append code := by
  have houtcome := materialize_outcome (expression_outcome node) dst hnodup
  rw [h] at houtcome
  exact houtcome

/-- The two sides of a connective are compared with one only after both have been computed. -/
theorem connective_cases {operator : Connective} {left right : Node} {dst : Register}
    (hnodup : g.registers.reserved.Nodup)
    (h : expression (.connective operator left right) dst g = .ok () g') :
    ∃ a b r code more, r ∉ g.registers.reserved ∧
      materialize left (expression left) dst g = .ok a (g.append code) ∧
      materialize right (expression right) r ((g.append code).hold [r]) =
        .ok b (((g.append code).hold [r]).append more) ∧
      g' = g.append (code ++ more ++ [.compare .greaterEqual dst a one,
        .compare .greaterEqual r b one,
        .bitwise operator dst (.register dst) (.register r)]) := by
  rw [expression, bind_eq_ok] at h
  obtain ⟨a, g₁, hfirst, h⟩ := h
  obtain ⟨code, -, rfl⟩ := materialize_eq_ok hnodup hfirst
  rw [bind_eq_ok] at h
  obtain ⟨r, g₂, hreserved, h⟩ := h
  obtain ⟨hfree, rfl⟩ := reserveBy_eq_ok hreserved
  -- The right operand is gathered while the register of its own is held.
  have hheld : ((g.append code).hold [r]).registers.reserved.Nodup := by
    simpa using ⟨hfree, hnodup⟩
  rw [bind_eq_ok] at h
  obtain ⟨b, g₃, hsecond, h⟩ := h
  obtain ⟨more, -, rfl⟩ := materialize_eq_ok hheld hsecond
  refine ⟨a, b, r, code, more, hfree, hfirst, hsecond, ?_⟩
  simp only [bind, EStateM.bind, emit_apply, Generator.append_hold, Generator.append_append,
    release_hold] at h
  cases h
  simp

/-! ## Declarations and assignments -/

theorem checkNew_eq_ok {name : String} (h : checkNew name g = .ok () g') :
    g.binding? name = none ∧ g' = g := by
  unfold checkNew at h
  rw [bind_apply get_apply] at h
  split at h
  · cases h
  · next hnew =>
    simp only [Bool.or_eq_true, not_or, Bool.not_eq_true, Option.isSome_eq_false_iff,
      Option.isNone_iff_eq_none] at hnew
    cases h
    exact ⟨Generator.binding?_eq_none.2 hnew, rfl⟩

/-- A value is computed by one move, or by the code of an expression. -/
theorem computeInto_cases {register : Register} {node : Node}
    (h : computeInto register node g = .ok () g') :
    (∃ operand, g.operand? node = .ok (some operand) ∧ g' = g.append [.move register operand]) ∨
    (g.operand? node = .ok none ∧ expression node register g = .ok () g') := by
  unfold computeInto at h
  rw [bind_eq_ok] at h
  obtain ⟨found, g₁, hasked, h⟩ := h
  obtain ⟨hanswer, rfl⟩ := query_eq_ok.1 hasked
  cases found with
  | some operand =>
    simp only [emit_apply] at h
    cases h
    exact .inl ⟨operand, hanswer, rfl⟩
  | none => exact .inr ⟨hanswer, h⟩

theorem computeInto_eq_ok {register : Register} {node : Node}
    (hnodup : g.registers.reserved.Nodup) (h : computeInto register node g = .ok () g') :
    ∃ code, (∀ instruction ∈ code, instruction.isStraight = true) ∧ g' = g.append code := by
  have houtcome := computeInto_outcome register node hnodup
  rw [h] at houtcome
  exact houtcome

/-- A device is noted, and a variable gets a free register that its value is computed into. -/
theorem declaration_cases {name : String} {value : Node} (hnodup : g.registers.reserved.Nodup)
    (h : declaration name value g = .ok () g') :
    g.binding? name = none ∧
    ((∃ config, value = .device config ∧ g' = g.declareDevice name config) ∨
    (∃ r code, (∀ config, value ≠ .device config) ∧ r ∉ g.registers.reserved ∧
      (∀ instruction ∈ code, instruction.isStraight = true) ∧
      computeInto r value (g.hold [r]) = .ok () ((g.hold [r]).append code) ∧
      g' = ((g.hold [r]).append code).declareVariable name r)) := by
  unfold declaration at h
  rw [bind_eq_ok] at h
  obtain ⟨⟨⟩, g₁, hchecked, h⟩ := h
  obtain ⟨hnew, rfl⟩ := checkNew_eq_ok hchecked
  refine ⟨hnew, ?_⟩
  -- A device is bound without code; any other value is computed into a register that is reserved
  -- for the variable.
  cases value with
  | device config =>
    cases h
    exact .inl ⟨config, rfl, rfl⟩
  | _ =>
    right
    simp only at h
    rw [bind_eq_ok] at h
    obtain ⟨r, g₂, hreserved, h⟩ := h
    obtain ⟨hfree, rfl⟩ := reserveBy_eq_ok hreserved
    have hheld : (g₁.hold [r]).registers.reserved.Nodup := by simpa using ⟨hfree, hnodup⟩
    rw [bind_eq_ok] at h
    obtain ⟨⟨⟩, g₃, hcomputed, h⟩ := h
    obtain ⟨code, hstraight, rfl⟩ := computeInto_eq_ok hheld hcomputed
    cases h
    exact ⟨r, code, by simp, hfree, hstraight, hcomputed, rfl⟩

/-- A store gathers its value and the index. -/
theorem deviceStore_cases {config : DeviceConfig} {name : String} {index : Option Node}
    {property : Option String} {value : Node} {dst : Register}
    (h : deviceStore config name index property value dst g = .ok () g') :
    ∃ logicType, property = some logicType ∧
      withOperands dst (value :: index.toList) (storeCode config logicType) g = .ok () g' := by
  cases property with
  | none => cases h
  | some logicType =>
    refine ⟨logicType, rfl, ?_⟩
    by_cases hunnamed :
        index = none ∨ ∀ deviceName mode, config.addressing ≠ .namedBatch deviceName mode
    · rw [← deviceStore_eq config name index logicType value dst hunnamed]
      exact h
    · push Not at hunnamed
      obtain ⟨hindexed, deviceName, mode, haddress⟩ := hunnamed
      obtain ⟨node, rfl⟩ := Option.ne_none_iff_exists'.1 hindexed
      unfold deviceStore at h
      rw [haddress] at h
      cases h

/-- A value is moved, or computed aside and then moved, or computed in place.  In place it does not
    read the variable, unless it is a single instruction. -/
theorem variableStore_cases {name : String} {index : Option Node} {property : Option String}
    {value : Node} (hnodup : g.registers.reserved.Nodup)
    (h : variableStore name index property value g = .ok () g') :
    ∃ r, g.variableTable.lookup name = some r ∧ index = none ∧ property = none ∧
      ((∃ operand, g.operand? value = .ok (some operand) ∧ g' = g.append [.move r operand]) ∨
      (∃ t code, g.operand? value = .ok none ∧ t ∉ g.registers.reserved ∧
        (∀ instruction ∈ code, instruction.isStraight = true) ∧
        expression value t (g.hold [t]) = .ok () ((g.hold [t]).append code) ∧
        g' = g.append (code ++ [.move r (.register t)])) ∨
      (g.operand? value = .ok none ∧
        (value.reads name = false ∨ g.isSingleInstruction value = true) ∧
        expression value r g = .ok () g')) := by
  unfold variableStore at h
  rw [bind_eq_ok] at h
  obtain ⟨r, g₁, hasked, h⟩ := h
  obtain ⟨hknown, rfl⟩ := query_eq_ok.1 hasked
  obtain ⟨hregister, hnoIndex, hnoProperty⟩ := Generator.registerOf_eq_ok hknown
  refine ⟨r, hregister, hnoIndex, hnoProperty, ?_⟩
  rw [bind_eq_ok] at h
  obtain ⟨found, g₂, hasked', h⟩ := h
  obtain ⟨hanswer, rfl⟩ := query_eq_ok.1 hasked'
  cases found with
  | some operand =>
    simp only [emit_apply] at h
    cases h
    exact .inl ⟨operand, hanswer, rfl⟩
  | none =>
    right
    simp only at h
    rw [bind_apply get_apply] at h
    -- A value that reads the variable, and takes more than one instruction, is computed aside.
    split at h
    · left
      rw [bind_eq_ok] at h
      obtain ⟨t, g₃, hreserved, h⟩ := h
      obtain ⟨hfree, rfl⟩ := reserveBy_eq_ok hreserved
      have hheld : (g₂.hold [t]).registers.reserved.Nodup := by simpa using ⟨hfree, hnodup⟩
      rw [bind_eq_ok] at h
      obtain ⟨⟨⟩, g₄, hcomputed, h⟩ := h
      obtain ⟨code, hstraight, rfl⟩ := expression_eq_ok hheld hcomputed
      simp only [bind, EStateM.bind, emit_apply, Generator.append_hold, Generator.append_append,
        release_hold] at h
      cases h
      exact ⟨t, code, hanswer, hfree, hstraight, hcomputed, rfl⟩
    · next hapart =>
      right
      refine ⟨hanswer, ?_, h⟩
      cases hreads : value.reads name <;> simp_all

/-- What is assigned to is a device or a variable. -/
theorem assignment_cases {name : String} {index : Option Node} {property : Option String}
    {value : Node} {dst : Register} (h : assignment name index property value dst g = .ok () g') :
    (∃ config, g.device? name = some config ∧
      deviceStore config name index property value dst g = .ok () g') ∨
    (g.device? name = none ∧ variableStore name index property value g = .ok () g') := by
  unfold assignment at h
  rw [bind_apply get_apply] at h
  cases hknown : g.device? name with
  | some config =>
    simp only [hknown] at h
    exact .inl ⟨config, rfl, h⟩
  | none =>
    simp only [hknown] at h
    exact .inr ⟨rfl, h⟩

/-! ## Control -/

theorem loopControl_cases {kind : LoopControl} (h : loopControl kind g = .ok () g') :
    ∃ target, LoopStack.target? g.loops kind = some target ∧ g' = g.append [.jump target] := by
  unfold loopControl at h
  rw [bind_apply get_apply] at h
  cases hfound : LoopStack.target? g.loops kind with
  | some target =>
    simp only [hfound, emit_apply] at h
    cases h
    exact ⟨target, rfl, rfl⟩
  | none =>
    simp only [hfound] at h
    cases h

/-- A loop has its label at the start, its test, its body, and the jump back before the label at
    the end. -/
theorem loopWith_cases {startStem endStem : String} {test : String → Gen Unit} {body : Gen Unit}
    (h : loopWith startStem endStem test body g = .ok () g') :
    ∃ g₁ g₂,
      test (g.loopLabels startStem endStem).leaveTo (g.entered startStem endStem) = .ok () g₁ ∧
      body g₁ = .ok () g₂ ∧
      g' = g₂.closed (g.loopLabels startStem endStem) := by
  unfold loopWith at h
  rw [bind_apply (newLabel_apply startStem), bind_apply (newLabel_apply endStem)] at h
  rw [bind_apply (modify_apply _), bind_apply (emit_apply _ _), bind_eq_ok] at h
  obtain ⟨⟨⟩, g₁, htested, h⟩ := h
  rw [bind_eq_ok] at h
  obtain ⟨⟨⟩, g₂, hgenerated, h⟩ := h
  refine ⟨g₁, g₂, htested, hgenerated, ?_⟩
  rw [bind_apply (emit_apply _ _), bind_apply (emit_apply _ _), Generator.append_append] at h
  cases h
  rfl

/-- A choice with two branches has both, one behind the other. -/
theorem branchElse_cases {condition thenBranch : Node} {elseBranch : Option Node} {dst : Register}
    (hunknown : condition.truth? = none) (htwo : elseBranch.isSome = true)
    (h : statement (.branch condition thenBranch elseBranch) dst g = .ok () g') :
    ∃ g₁ g₂ g₃,
      jumpUnless condition dst (g.nextLabel "if_else")
        ((g.labelled "if_else").labelled "if_end") = .ok () g₁ ∧
      statement thenBranch dst g₁ = .ok () g₂ ∧
      otherwise elseBranch dst (g₂.append [.jump ((g.labelled "if_else").nextLabel "if_end"),
        .label (g.nextLabel "if_else")]) = .ok () g₃ ∧
      g' = g₃.append [.label ((g.labelled "if_else").nextLabel "if_end")] := by
  rw [statement, hunknown] at h
  simp only [htwo, if_true] at h
  rw [bind_apply (newLabel_apply "if_else"), bind_apply (newLabel_apply "if_end"),
    bind_eq_ok] at h
  obtain ⟨⟨⟩, g₁, htested, h⟩ := h
  rw [bind_eq_ok] at h
  obtain ⟨⟨⟩, g₂, hfirst, h⟩ := h
  rw [bind_apply (emit_apply _ _), bind_apply (emit_apply _ _), Generator.append_append,
    bind_eq_ok] at h
  obtain ⟨⟨⟩, g₃, hsecond, h⟩ := h
  rw [emit_apply] at h
  cases h
  exact ⟨g₁, g₂, g₃, htested, hfirst, hsecond, rfl⟩

/-- A choice with one branch passes over it. -/
theorem branchOnly_cases {condition thenBranch : Node} {dst : Register}
    (hunknown : condition.truth? = none)
    (h : statement (.branch condition thenBranch none) dst g = .ok () g') :
    ∃ g₁ g₂,
      jumpUnless condition dst (g.nextLabel "if") (g.labelled "if") = .ok () g₁ ∧
      statement thenBranch dst g₁ = .ok () g₂ ∧ g' = g₂.append [.label (g.nextLabel "if")] := by
  rw [statement, hunknown] at h
  simp only [Option.isSome_none, Bool.false_eq_true, if_false] at h
  rw [bind_apply (newLabel_apply "if"), bind_eq_ok] at h
  obtain ⟨⟨⟩, g₁, htested, h⟩ := h
  rw [bind_eq_ok] at h
  obtain ⟨⟨⟩, g₂, hfirst, h⟩ := h
  rw [emit_apply] at h
  cases h
  exact ⟨g₁, g₂, htested, hfirst, rfl⟩

/-! ## Scripts -/

/-- Freeing registers leaves the code as it is. -/
theorem releaseAll_code {registers : List Register} (h : releaseAll registers g = .ok () g') :
    g'.code = g.code := by
  induction registers generalizing g with
  | nil =>
    rw [releaseAll] at h
    cases h
    rfl
  | cons r rest ih =>
    rw [releaseAll, bind_eq_ok] at h
    obtain ⟨⟨⟩, g₁, hfreed, h⟩ := h
    refine (ih h).trans ?_
    unfold release at hfreed
    split at hfreed
    · cases hfreed
      rfl
    · cases hfreed

/-- The code of a script is that of its statements. -/
theorem program_cases {nodes : Program} (h : program nodes g = .ok () g') :
    ∃ scratch g₁, scratch ∉ g.registers.reserved ∧
      statements nodes scratch (g.hold [scratch]) = .ok () g₁ ∧ g'.code = g₁.code := by
  unfold program at h
  rw [bind_eq_ok] at h
  obtain ⟨scratch, g₀, hreserved, h⟩ := h
  obtain ⟨hfree, rfl⟩ := reserveBy_eq_ok hreserved
  rw [bind_eq_ok] at h
  obtain ⟨⟨⟩, g₁, hgenerated, h⟩ := h
  refine ⟨scratch, g₁, hfree, hgenerated, ?_⟩
  rw [bind_eq_ok] at h
  obtain ⟨⟨⟩, g₂, hfreed, h⟩ := h
  have hone : releaseAll [scratch] g₁ = .ok () g₂ := by
    simpa [releaseAll] using hfreed
  rw [bind_eq_ok] at h
  obtain ⟨⟨⟩, g₃, hdropped, h⟩ := h
  unfold dropVariables at hdropped
  rw [bind_apply get_apply, bind_apply (modify_apply _)] at hdropped
  rw [bind_apply get_apply] at h
  -- The last check fails or changes nothing.
  split at h
  · cases h
  · cases h
    have hfirst : g₂.code = g₁.code := releaseAll_code hone
    exact (releaseAll_code hdropped).trans hfirst

end Gen
end ChipScript
