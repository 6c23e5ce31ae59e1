import ChipScript.Proofs.Chip.Inversion

/-!
# Which registers code writes

Code for a value writes the register that the value is computed into, and otherwise only registers
that nothing else holds at that time (`expression_computes`).  Whatever is in use keeps its content,
which is why a variable is changed by nothing but what is assigned to it, as long as code stands
behind its declaration.

Stores are the other thing that code for a value never does.
-/

namespace ChipScript

/-! ## Instructions -/

namespace Instruction

/-- The register that an instruction writes. -/
def written? : Instruction → Option Register
  | move dst _ => some dst
  | arithmetic _ dst _ _ => some dst
  | compare _ dst _ _ => some dst
  | bitwise _ dst _ _ => some dst
  | select dst _ _ _ => some dst
  | load dst _ _ _ => some dst
  | function _ dst _ => some dst
  | _ => none

/-- Whether an instruction stores to devices. -/
def isStore : Instruction → Bool
  | store _ _ _ _ => true
  | _ => false

/-- An instruction that belongs to the computation of a value into `dst`: it stores nothing, and it
    writes `dst` or a register that is free in the state. -/
structure Computes (g : Generator) (dst : Register) (instruction : Instruction) : Prop where
  noStore : instruction.isStore = false
  within : ∀ r, instruction.written? = some r → r = dst ∨ r ∉ g.registers.reserved

namespace Computes

variable {g g' : Generator} {dst r : Register} {instruction : Instruction}

/-- Every instruction that writes the destination belongs to the computation. -/
theorem of_written (h : instruction.written? = some dst) : instruction.Computes g dst := by
  refine ⟨?_, ?_⟩
  · cases instruction <;> first | rfl | cases h
  · intro r hwritten
    rw [h] at hwritten
    exact .inl (Option.some.inj hwritten).symm

/-- So does every instruction that writes nothing, and stores nothing. -/
theorem of_unwritten (hnoStore : instruction.isStore = false) (h : instruction.written? = none) :
    instruction.Computes g dst := by
  refine ⟨hnoStore, ?_⟩
  intro r hwritten
  rw [h] at hwritten
  cases hwritten

theorem of_command {command : Vocabulary.Command} {operands : List Operand}
    (hmem : instruction ∈ Gen.commandCode command operands) : instruction.Computes g dst := by
  cases command <;> simp only [Gen.commandCode, List.mem_map, List.mem_singleton] at hmem
  · obtain ⟨operand, -, rfl⟩ := hmem
    exact .of_unwritten rfl rfl
  · subst hmem
    exact .of_unwritten rfl rfl
  · subst hmem
    exact .of_unwritten rfl rfl

/-- What is free while more registers are in use is free before. -/
theorem of_subset (h : instruction.Computes g' dst)
    (hsubset : g.registers.reserved ⊆ g'.registers.reserved) : instruction.Computes g dst :=
  ⟨h.noStore, fun r hwritten =>
    (h.within r hwritten).imp_right fun hfree hmem => hfree (hsubset hmem)⟩

/-- A value that is computed into a temporary is part of the computation that takes it. -/
theorem of_temporary (h : instruction.Computes (g.hold [r]) r) (hfree : r ∉ g.registers.reserved) :
    instruction.Computes g dst := by
  refine ⟨h.noStore, fun other hwritten => .inr ?_⟩
  rcases h.within other hwritten with rfl | hunused
  · exact hfree
  · exact fun hmem => hunused (List.mem_cons_of_mem _ hmem)

end Computes
end Instruction

/-- Code has been added, all of whose instructions have a property. -/
def Adds (property : Instruction → Prop) (g g' : Generator) : Prop :=
  ∃ code, g'.code.toList = g.code.toList ++ code ∧ ∀ instruction ∈ code, property instruction

namespace Adds

variable {property weaker : Instruction → Prop} {g g₁ g₂ : Generator}

theorem refl (g : Generator) : Adds property g g :=
  ⟨[], by simp, by simp⟩

theorem append {code : List Instruction} (h : ∀ instruction ∈ code, property instruction) :
    Adds property g (g.append code) :=
  ⟨code, by simp, h⟩

theorem trans (hfirst : Adds property g g₁) (hsecond : Adds property g₁ g₂) :
    Adds property g g₂ := by
  obtain ⟨code, hadded, hhas⟩ := hfirst
  obtain ⟨more, hadded', hhas'⟩ := hsecond
  refine ⟨code ++ more, by rw [hadded', hadded, List.append_assoc], ?_⟩
  intro instruction hmem
  exact (List.mem_append.1 hmem).elim (hhas instruction) (hhas' instruction)

theorem mono (h : Adds property g g₁)
    (himp : ∀ instruction, property instruction → weaker instruction) : Adds weaker g g₁ := by
  obtain ⟨code, hadded, hhas⟩ := h
  exact ⟨code, hadded, fun instruction hmem => himp instruction (hhas instruction hmem)⟩

/-- The code that has been added is known from the two states. -/
theorem of_append {code : List Instruction} (h : Adds property g g₁)
    (hadded : g₁.code.toList = g.code.toList ++ code) :
    ∀ instruction ∈ code, property instruction := by
  obtain ⟨code', hadded', hhas⟩ := h
  rw [hadded] at hadded'
  rw [List.append_cancel_left hadded']
  exact hhas

end Adds

namespace Gen

variable {g g' : Generator}

/-! ## Operands -/

/-- What the code of a value writes, for one node. -/
abbrev ComputesWithin (node : Node) : Prop :=
  ∀ (dst : Register) (g g' : Generator), g.registers.reserved.Nodup →
    expression node dst g = .ok () g' → Adds (·.Computes g dst) g g'

theorem operandIn_computes {scope scope' : Scope} {node : Node} {operand : Operand}
    (hcomputes : ComputesWithin node) (hnodup : g.registers.reserved.Nodup)
    (h : operandIn scope node (expression node) g = .ok (operand, scope') g') :
    Adds (·.Computes g scope.dst) g g' ∧ scope'.dst = scope.dst := by
  rcases operandIn_cases h with ⟨-, rfl, rfl⟩ | ⟨-, -, hgenerated, -, rfl⟩ |
    ⟨-, -, r, hfree, hgenerated, -, rfl⟩
  · exact ⟨.refl _, rfl⟩
  · exact ⟨hcomputes _ _ _ hnodup hgenerated, rfl⟩
  · have hheld : (g.hold [r]).registers.reserved.Nodup := by simpa using ⟨hfree, hnodup⟩
    have hadded : Adds (·.Computes (g.hold [r]) r) g g' := hcomputes r _ g' hheld hgenerated
    exact ⟨hadded.mono fun _ hcomputed => hcomputed.of_temporary hfree, rfl⟩

theorem operandsIn_computes {nodes : List Node} (hcomputes : ∀ node ∈ nodes, ComputesWithin node)
    {scope scope' : Scope} {operands : List Operand} (hnodup : g.registers.reserved.Nodup)
    (h : operandsIn scope nodes g = .ok (operands, scope') g') :
    Adds (·.Computes g scope.dst) g g' := by
  induction nodes generalizing scope scope' g operands with
  | nil =>
    rw [operandsIn] at h
    obtain ⟨-, rfl⟩ := pure_eq_ok.1 h
    exact .refl _
  | cons node rest ih =>
    obtain ⟨operand, scope₁, g₁, others, hgathered, hlater, -⟩ := operandsIn_cons_cases h
    obtain ⟨hfirst, hsame⟩ :=
      operandIn_computes (hcomputes node (List.mem_cons_self ..)) hnodup hgathered
    -- What the first operand has taken is not free for the others.
    have houtcome := operandIn_outcome (expression_outcome node) scope hnodup
    rw [hgathered] at houtcome
    obtain ⟨temporaries, code, -, -, hheld, rfl⟩ := houtcome
    have hrest := ih (fun n hn => hcomputes n (List.mem_cons_of_mem _ hn)) hheld hlater
    refine hfirst.trans (hrest.mono fun _ hcomputed => ?_)
    rw [hsame] at hcomputed
    exact hcomputed.of_subset (List.subset_append_right _ _)

/-- Operands are gathered by code that computes values, and then they are used. -/
theorem withOperands_computes {dst : Register} {nodes : List Node}
    {use : List Operand → List Instruction} (hcomputes : ∀ node ∈ nodes, ComputesWithin node)
    (hnodup : g.registers.reserved.Nodup) (h : withOperands dst nodes use g = .ok () g') :
    ∃ operands code, operands.length = nodes.length ∧
      (∀ instruction ∈ code, instruction.isStraight = true) ∧
      (∀ instruction ∈ code, instruction.Computes g dst) ∧
      g' = g.append (code ++ use operands) := by
  obtain ⟨operands, scope, temporaries, code, hgathered, hstraight, rfl⟩ :=
    withOperands_cases hnodup h
  have hcomputed := (operandsIn_computes hcomputes hnodup hgathered).of_append
    (g.append_code_toList code)
  exact ⟨operands, code, operandsIn_length hgathered, hstraight, hcomputed, rfl⟩

/-- If what uses the operands writes the destination too, all of it computes a value. -/
theorem withOperands_adds {dst : Register} {nodes : List Node}
    {use : List Operand → List Instruction} (hcomputes : ∀ node ∈ nodes, ComputesWithin node)
    (huses : ∀ operands, ∀ instruction ∈ use operands, instruction.Computes g dst)
    (hnodup : g.registers.reserved.Nodup) (h : withOperands dst nodes use g = .ok () g') :
    Adds (·.Computes g dst) g g' := by
  obtain ⟨operands, code, -, -, hcomputed, rfl⟩ := withOperands_computes hcomputes hnodup h
  refine .append fun instruction hmem => ?_
  exact (List.mem_append.1 hmem).elim (hcomputed instruction) (huses operands instruction)

theorem materialize_computes {node : Node} {dst : Register} {operand : Operand}
    (hcomputes : ComputesWithin node) (hnodup : g.registers.reserved.Nodup)
    (h : materialize node (expression node) dst g = .ok operand g') :
    Adds (·.Computes g dst) g g' := by
  rcases materialize_cases h with ⟨-, rfl⟩ | ⟨-, hgenerated, -⟩
  · exact .refl _
  · exact hcomputes dst g g' hnodup hgenerated

/-! ## Values -/

theorem binaryCode_computes {dst : Register} {code : Operand → Operand → Instruction}
    (hwrites : ∀ a b, (code a b).written? = some dst) (operands : List Operand) :
    ∀ instruction ∈ binaryCode (fun a b => [code a b]) operands, instruction.Computes g dst := by
  intro instruction hmem
  unfold binaryCode at hmem
  split at hmem
  · obtain rfl := List.mem_singleton.1 hmem
    exact .of_written (hwrites _ _)
  · cases hmem

theorem connective_computes (operator : Connective) {left right : Node}
    (hcomputesLeft : ComputesWithin left) (hcomputesRight : ComputesWithin right) :
    ComputesWithin (.connective operator left right) := by
  intro dst g g' hnodup h
  obtain ⟨a, b, r, code, more, hfree, hfirst, hsecond, rfl⟩ := connective_cases hnodup h
  have hheld : ((g.append code).hold [r]).registers.reserved.Nodup := by simpa using ⟨hfree, hnodup⟩
  have hbefore : ∀ instruction ∈ code, instruction.Computes g dst :=
    (materialize_computes hcomputesLeft hnodup hfirst).of_append (g.append_code_toList code)
  have hbetween : ∀ instruction ∈ more, instruction.Computes ((g.append code).hold [r]) r :=
    (materialize_computes hcomputesRight hheld hsecond).of_append
      (((g.append code).hold [r]).append_code_toList more)
  refine .append fun instruction hmem => ?_
  simp only [List.mem_append, List.mem_cons, List.not_mem_nil, or_false] at hmem
  rcases hmem with (hmem | hmem) | rfl | rfl | rfl
  · exact hbefore instruction hmem
  · have hcomputed : instruction.Computes (g.hold [r]) r :=
      (hbetween instruction hmem).of_subset (List.Subset.refl _)
    exact hcomputed.of_temporary hfree
  · exact .of_written rfl
  · -- The other side is compared in its temporary.
    exact .of_temporary (.of_written rfl) hfree
  · exact .of_written rfl

theorem read_computes (name : String) {index : Option Node} (property : Option String)
    (hcomputes : ∀ node ∈ index.toList, ComputesWithin node) :
    ComputesWithin (.read name index property) := by
  intro dst g g' hnodup h
  cases hknown : g.device? name with
  | some config =>
    cases property with
    | none =>
      simp only [expression, bind, EStateM.bind, get, getThe, MonadStateOf.get, EStateM.get,
        hknown] at h
      cases h
    -- A load writes the destination, behind what computes its slot.
    | some property =>
      rw [expression_load index property dst hknown] at h
      refine withOperands_adds hcomputes ?_ hnodup h
      intro operands instruction hmem
      obtain rfl := List.mem_singleton.1 hmem
      exact .of_written rfl
  | none =>
    rw [expression, bind_apply get_apply] at h
    simp only [hknown] at h
    rw [bind_eq_ok] at h
    obtain ⟨r, g₁, hasked, h⟩ := h
    obtain ⟨-, rfl⟩ := query_eq_ok.1 hasked
    rw [emit_apply] at h
    cases h
    exact .append fun instruction hmem => List.mem_singleton.1 hmem ▸ .of_written rfl

theorem call_computes (name : String) {arguments : List Node}
    (hcomputes : ∀ node ∈ arguments, ComputesWithin node) :
    ComputesWithin (.call name arguments) := by
  intro dst g g' hnodup h
  -- A command writes no register, and a function writes the destination.
  cases hcalled : Vocabulary.Command.ofName? name with
  | some command =>
    rw [expression_command arguments dst hcalled, bind_eq_ok] at h
    obtain ⟨⟨⟩, g₁, hchecked, h⟩ := h
    obtain ⟨-, rfl⟩ := checkArity_eq_ok hchecked
    exact withOperands_adds hcomputes (fun _ _ => .of_command) hnodup h
  | none =>
    cases hknown : Vocabulary.functionArity? name with
    | some arity =>
      rw [expression_function arguments dst hcalled hknown, bind_eq_ok] at h
      obtain ⟨⟨⟩, g₁, hchecked, h⟩ := h
      obtain ⟨-, rfl⟩ := checkArity_eq_ok hchecked
      refine withOperands_adds hcomputes ?_ hnodup h
      intro operands instruction hmem
      obtain rfl := List.mem_singleton.1 hmem
      exact .of_written rfl
    | none =>
      simp only [expression, hcalled, hknown] at h
      cases h

/-- **Code for a value writes only its destination and free registers, and stores nothing.** -/
theorem expression_computes (node : Node) : ComputesWithin node := by
  -- The operands write within the bounds by induction, and the instruction of the operator writes
  -- the destination.
  induction node using Node.partsInduction with
  | step node ih =>
    cases node with
    | arithmetic operator left right =>
      intro dst g g' hnodup h
      rw [expression_arithmetic] at h
      exact withOperands_adds ih (binaryCode_computes fun _ _ => rfl) hnodup h
    | comparison operator left right =>
      intro dst g g' hnodup h
      rw [expression_comparison] at h
      exact withOperands_adds ih (binaryCode_computes fun _ _ => rfl) hnodup h
    | connective operator left right =>
      exact connective_computes operator (ih left (by simp [Node.parts]))
        (ih right (by simp [Node.parts]))
    | not operand =>
      intro dst g g' hnodup h
      rw [expression_not] at h
      refine withOperands_adds ih ?_ hnodup h
      intro operands instruction hmem
      unfold unaryCode at hmem
      split at hmem
      · obtain rfl := List.mem_singleton.1 hmem
        exact .of_written rfl
      · cases hmem
    | choice condition thenValue elseValue =>
      intro dst g g' hnodup h
      cases hknown : condition.value? with
      | some value =>
        rw [expression_choice_known _ _ _ hknown] at h
        split at h
        · exact ih thenValue (by simp [Node.parts]) dst g g' hnodup h
        · exact ih elseValue (by simp [Node.parts]) dst g g' hnodup h
      | none =>
        rw [expression_choice _ _ _ hknown] at h
        refine withOperands_adds ih ?_ hnodup h
        intro operands instruction hmem
        unfold selectCode at hmem
        split at hmem
        · obtain rfl := List.mem_singleton.1 hmem
          exact .of_written rfl
        · cases hmem
    | read name index property => exact read_computes name property ih
    | call name arguments => exact call_computes name ih
    | number text | constant text | hash text =>
      intro dst g g' hnodup h
      rw [expression, emit_apply] at h
      cases h
      exact .append fun instruction hmem => List.mem_singleton.1 hmem ▸ .of_written rfl
    | device config | block body | declare name value | assign name index property value | loop body
      | whileLoop condition body | branch condition thenBranch elseBranch | control kind =>
      intro dst g g' hnodup h
      rw [expression] at h
      · cases h
      all_goals simp

end Gen

/-! ## Statements without parts -/

/-- Whether no part of a statement is a statement. -/
def Node.isSimple : Node → Bool
  | block _ | branch _ _ _ | whileLoop _ _ | loop _ => false
  | _ => true

/-- An instruction that belongs to the code of a simple statement. -/
structure Instruction.BelongsTo (g : Generator) (dst : Register) (node : Node)
    (instruction : Instruction) : Prop where
  straight : instruction.isStraight = true
  /-- It can be written as a line of assembly. -/
  spelled : ∃ words, instruction.words = .ok words
  /-- Of the registers in use, it writes the given one or that of a variable that is assigned to. -/
  within : ∀ r ∈ g.registers.reserved, instruction.written? = some r →
    r = dst ∨ ∃ name value, node = .assign name none none value ∧
      g.binding? name = some (.register r)

namespace Instruction.BelongsTo

variable {g : Generator} {dst r : Register} {node : Node} {instruction : Instruction}

theorem spelled_of_noStore (h : instruction.isStore = false) :
    ∃ words, instruction.words = .ok words := by
  cases instruction <;> first | exact ⟨_, rfl⟩ | cases h

theorem of_computes (hcomputes : instruction.Computes g dst)
    (hstraight : instruction.isStraight = true) : instruction.BelongsTo g dst node where
  straight := hstraight
  spelled := spelled_of_noStore hcomputes.noStore
  within := fun r hused hwritten => .inl <|
    (hcomputes.within r hwritten).resolve_right fun hfree => hfree hused

/-- A value that is computed into a free register disturbs nothing. -/
theorem of_free (hcomputes : instruction.Computes (g.hold [r]) r) (hfree : r ∉ g.registers.reserved)
    (hstraight : instruction.isStraight = true) : instruction.BelongsTo g dst node :=
  of_computes (hcomputes.of_temporary hfree) hstraight

/-- What computes the new value of a variable belongs to the assignment. -/
theorem of_assigned {name : String} {value : Node} (hknown : g.binding? name = some (.register r))
    (hcomputes : instruction.Computes g r) (hstraight : instruction.isStraight = true) :
    instruction.BelongsTo g dst (.assign name none none value) where
  straight := hstraight
  spelled := spelled_of_noStore hcomputes.noStore
  within := by
    intro r' hused hwritten
    rcases hcomputes.within r' hwritten with rfl | hfree
    · exact .inr ⟨name, value, rfl, hknown⟩
    · exact absurd hused hfree

end Instruction.BelongsTo

namespace Gen

variable {g g' : Generator} {dst : Register}

theorem expression_belongs (node : Node) (hnodup : g.registers.reserved.Nodup)
    (h : expression node dst g = .ok () g') : Adds (·.BelongsTo g dst node) g g' := by
  obtain ⟨code, hstraight, rfl⟩ := expression_eq_ok hnodup h
  have hcomputes :=
    (expression_computes node dst g _ hnodup h).of_append (g.append_code_toList code)
  exact .append fun instruction hmem => .of_computes (hcomputes instruction hmem)
    (hstraight instruction hmem)

theorem declaration_belongs {name : String} {value : Node} (hnodup : g.registers.reserved.Nodup)
    (h : declaration name value g = .ok () g') :
    Adds (·.BelongsTo g dst (.declare name value)) g g' := by
  obtain ⟨-, ⟨config, -, rfl⟩ | ⟨r, code, -, hfree, hstraight, hcomputed, rfl⟩⟩ :=
    declaration_cases hnodup h
  · exact ⟨[], by simp [Generator.declareDevice], by simp⟩
  · have hheld : (g.hold [r]).registers.reserved.Nodup := by simpa using ⟨hfree, hnodup⟩
    have hcomputes : ∀ instruction ∈ code, instruction.Computes (g.hold [r]) r := by
      rcases computeInto_cases hcomputed with ⟨operand, -, hsame⟩ | ⟨-, hgenerated⟩
      · rw [Generator.append_injective hsame]
        exact fun instruction hmem => List.mem_singleton.1 hmem ▸ .of_written rfl
      · exact (expression_computes value r _ _ hheld hgenerated).of_append
          ((g.hold [r]).append_code_toList code)
    refine ⟨code, ?_, fun instruction hmem =>
      .of_free (hcomputes instruction hmem) hfree (hstraight instruction hmem)⟩
    exact (g.hold [r]).append_code_toList code

/-- A store that is generated is one that the chip has: no slot of a named batch is stored to. -/
theorem deviceStore_belongs {config : DeviceConfig} {name : String} {index : Option Node}
    {property : Option String} {value node : Node} (hnodup : g.registers.reserved.Nodup)
    (h : deviceStore config name index property value dst g = .ok () g') :
    Adds (·.BelongsTo g dst node) g g' := by
  -- A store to a slot of a named batch would have been refused.
  have hunnamed : index = none ∨
      ∀ deviceName mode, config.addressing ≠ .namedBatch deviceName mode := by
    cases index with
    | none => exact .inl rfl
    | some slot =>
      refine .inr fun deviceName mode haddress => ?_
      unfold deviceStore at h
      rw [haddress] at h
      cases property <;> cases h
  obtain ⟨logicType, -, hgathered⟩ := deviceStore_cases h
  obtain ⟨operands, code, hlength, hstraight, hcomputes, rfl⟩ :=
    withOperands_computes (fun node _ => expression_computes node) hnodup hgathered
  refine .append fun instruction hmem => ?_
  rcases List.mem_append.1 hmem with hmem | hmem
  · exact .of_computes (hcomputes instruction hmem) (hstraight instruction hmem)
  · cases operands with
    | nil => cases hmem
    | cons a rest =>
      obtain rfl := List.mem_singleton.1 hmem
      -- It can be written: an address by name stands without a slot, and every other one with or
      -- without.
      refine ⟨rfl, ?_, nofun⟩
      rcases hunnamed with rfl | hunnamed
      · obtain rfl : rest = [] := by simpa using hlength
        rw [Instruction.words, DeviceConfig.target]
        cases config.addressing <;> exact ⟨_, rfl⟩
      · rw [Instruction.words, DeviceConfig.target]
        cases haddress : config.addressing with
        | namedBatch deviceName mode => exact absurd haddress (hunnamed deviceName mode)
        | pin pin => cases rest.head? <;> exact ⟨_, rfl⟩
        | batch mode => cases rest.head? <;> exact ⟨_, rfl⟩

theorem assignment_belongs {name : String} {index : Option Node} {property : Option String}
    {value : Node} (hnodup : g.registers.reserved.Nodup)
    (h : assignment name index property value dst g = .ok () g') :
    Adds (·.BelongsTo g dst (.assign name index property value)) g g' := by
  rcases assignment_cases h with ⟨config, -, hstored⟩ | ⟨hnoDevice, hstored⟩
  · exact deviceStore_belongs hnodup hstored
  · obtain ⟨r, hregister, rfl, rfl, hcases⟩ := variableStore_cases hnodup hstored
    have hknown : g.binding? name = some (.register r) :=
      Generator.binding?_eq_register.2 ⟨hnoDevice, hregister⟩
    rcases hcases with ⟨operand, -, rfl⟩ | ⟨t, code, -, hfree, hstraight, hcomputed, rfl⟩ |
      ⟨-, -, hcomputed⟩
    · exact .append fun instruction hmem => List.mem_singleton.1 hmem ▸
        .of_assigned hknown (.of_written rfl) rfl
    · -- The value is computed aside, and then moved.
      have hheld : (g.hold [t]).registers.reserved.Nodup := by simpa using ⟨hfree, hnodup⟩
      have hcomputes := (expression_computes value t _ _ hheld hcomputed).of_append
        ((g.hold [t]).append_code_toList code)
      refine .append fun instruction hmem => ?_
      rcases List.mem_append.1 hmem with hmem | hmem
      · exact .of_free (hcomputes instruction hmem) hfree (hstraight instruction hmem)
      · exact List.mem_singleton.1 hmem ▸ .of_assigned hknown (.of_written rfl) rfl
    · obtain ⟨code, hstraight, rfl⟩ := expression_eq_ok hnodup hcomputed
      have hcomputes := (expression_computes value r g _ hnodup hcomputed).of_append
        (g.append_code_toList code)
      exact .append fun instruction hmem => .of_assigned hknown (hcomputes instruction hmem)
        (hstraight instruction hmem)

/-- **What simple statements do to registers in use**: they write the register that they are given,
    and that of the variable that they assign to. -/
theorem simple_belongs {node : Node} (hsimple : node.isSimple = true)
    (hnoControl : ∀ kind, node ≠ .control kind) (hnodup : g.registers.reserved.Nodup)
    (h : statement node dst g = .ok () g') : Adds (·.BelongsTo g dst node) g g' := by
  cases node with
  | declare name value =>
    rw [statement] at h
    exact declaration_belongs hnodup h
  | assign name index property value =>
    rw [statement] at h
    exact assignment_belongs hnodup h
  | control kind => exact absurd rfl (hnoControl kind)
  | block _ | branch _ _ _ | whileLoop _ _ | loop _ => cases hsimple
  | _ =>
    rw [statement] at h
    · exact expression_belongs _ hnodup h
    all_goals simp

end Gen
end ChipScript
