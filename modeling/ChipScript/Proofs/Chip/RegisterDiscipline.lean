import ChipScript.Proofs.Chip.Growth

/-!
# Register discipline

Registers are reserved and freed in many places, and generation may stop between any two of them.
This module shows that the bookkeeping never goes wrong, whatever trees are given to one generator
and however often it has failed before.

* `Generator.Disciplined`: no register is in use twice, and variables have different registers.
* `statement_outcome`: a statement leaves in use what was in use before, and beyond it exactly the
  registers of the variables that it declared.
-/

namespace ChipScript

/-! ## Disciplined states -/

/-- A register in use that belongs to no variable stays so, wherever generation stops: a new
    variable has a register that was free before. -/
theorem Grown.keeps_unowned {g g' : Generator} (hgrown : Grown g g') {r : Register}
    (hused : r ∈ g.registers.reserved) (hunowned : r ∉ g.owned) :
    r ∈ g'.registers.reserved ∧ r ∉ g'.owned := by
  obtain ⟨entries, taken, hv, hr, hs⟩ := hgrown.new
  -- A register that was in use cannot be among those newly in use, since none is in use twice.
  have hother : r ∉ entries.map (·.2) := by
    intro hnew
    have hdistinct := hgrown.nodup
    rw [hr] at hdistinct
    exact (List.nodup_append.1 hdistinct).2.2 r (hs.subset hnew) r hused rfl
  refine ⟨?_, ?_⟩
  · rw [hr]
    exact List.mem_append_right _ hused
  · simp only [Generator.owned, hv, List.map_append, List.mem_append, not_or]
    exact ⟨hother, hunowned⟩

namespace Generator

/-- No register is in use twice, and the variables have registers of their own among those in use,
    in the same order. -/
structure Disciplined (g : Generator) : Prop where
  nodup : g.registers.reserved.Nodup
  owned : g.owned.Sublist g.registers.reserved

/-- Growth keeps a state disciplined, so that generation may stop anywhere. -/
theorem Disciplined.grown {g g' : Generator} (h : g.Disciplined) (hgrown : Grown g g') :
    g'.Disciplined := by
  obtain ⟨entries, taken, hv, hr, hs⟩ := hgrown.new
  refine ⟨hgrown.nodup, ?_⟩
  rw [Generator.owned, hv, hr, List.map_append]
  exact hs.append h.owned

theorem Disciplined.hold {g : Generator} (h : g.Disciplined) {r : Register}
    (hfree : r ∉ g.registers.reserved) : (g.hold [r]).Disciplined :=
  ⟨by simpa using ⟨hfree, h.nodup⟩, h.owned.trans (List.sublist_cons_self r _)⟩

end Generator

/-! ## Statements -/

/-- What a statement that has been generated leaves behind: variables, and their registers. -/
structure Declares (g g' : Generator) : Prop where
  /-- No register is in use twice. -/
  nodup : g'.registers.reserved.Nodup
  /-- The registers newly in use are those of the new variables, in their order. -/
  new : ∃ entries, g'.variableTable = entries ++ g.variableTable ∧
    g'.registers.reserved = entries.map (·.2) ++ g.registers.reserved
  /-- All loops that were begun have been ended. -/
  loops : g'.loops = g.loops

namespace Declares

theorem refl {g : Generator} (hnodup : g.registers.reserved.Nodup) : Declares g g :=
  ⟨hnodup, ⟨[], rfl, rfl⟩, rfl⟩

theorem trans {g g₁ g₂ : Generator} (hfirst : Declares g g₁) (hsecond : Declares g₁ g₂) :
    Declares g g₂ := by
  obtain ⟨entries, hv, hr⟩ := hfirst.new
  obtain ⟨entries', hv', hr'⟩ := hsecond.new
  -- The latest entries stand first, in the table and among the registers alike.
  refine ⟨hsecond.nodup, ⟨entries' ++ entries, ?_, ?_⟩, hsecond.loops.trans hfirst.loops⟩
  · rw [hv', hv, List.append_assoc]
  · rw [hr', hr, List.map_append, List.append_assoc]

/-- What a statement leaves behind is growth. -/
theorem grown {g g' : Generator} (h : Declares g g') : Grown g g' := by
  obtain ⟨entries, hv, hr⟩ := h.new
  exact ⟨h.nodup, entries, entries.map (·.2), hv, hr, List.Sublist.refl _⟩

/-- Code and labels are no matter of registers. -/
theorem congr {g g₁ g₁' g' : Generator} (h : Declares g₁ g₁')
    (hbefore : g₁.variableTable = g.variableTable ∧ g₁.registers = g.registers)
    (hafter : g'.variableTable = g₁'.variableTable ∧ g'.registers = g₁'.registers)
    (hloops : g'.loops = g.loops) : Declares g g' := by
  obtain ⟨entries, hv, hr⟩ := h.new
  refine ⟨hafter.2 ▸ h.nodup, ⟨entries, ?_, ?_⟩, hloops⟩
  · rw [hafter.1, hv, hbefore.1]
  · rw [hafter.2, hr, hbefore.2]

theorem append {g g' : Generator} (h : Declares g g') (code : List Instruction) :
    Declares g (g'.append code) :=
  h.congr ⟨rfl, rfl⟩ ⟨rfl, rfl⟩ h.loops

end Declares

/-- Where neither variables nor registers have changed there is nothing to account for. -/
theorem Grown.of_eq {g g' : Generator} (hnodup : g.registers.reserved.Nodup)
    (hvariables_eq : g'.variableTable = g.variableTable) (hregisters : g'.registers = g.registers) :
    Grown g g' :=
  ⟨hregisters ▸ hnodup, [], [], by simpa using hvariables_eq, by simp [hregisters],
    List.Sublist.slnil⟩

namespace Gen

/-- What a step does to the registers, as a property of the step. -/
abbrev KeepsRegisters (step : Gen Unit) : Prop :=
  ∀ g : Generator, g.registers.reserved.Nodup → Outcome g (fun _ g' => Declares g g') (step g)

/-- Steps that keep account of the registers may follow each other. -/
theorem KeepsRegisters.seq {first second : Gen Unit} (h₁ : KeepsRegisters first)
    (h₂ : KeepsRegisters second) : KeepsRegisters (do first; second) := by
  intro g hnodup
  refine (h₁ g hnodup).bind ?_
  intro _ g₁ hdeclared
  exact ((h₂ g₁ hdeclared.nodup).of_later hdeclared.grown).mono fun _ _ => hdeclared.trans

theorem emit_keepsRegisters (instruction : Instruction) : KeepsRegisters (emit instruction) := by
  intro g hnodup
  rw [emit_apply]
  exact (Declares.refl hnodup).append _

theorem expression_keepsRegisters (node : Node) (dst : Register) :
    KeepsRegisters (expression node dst) := by
  intro g hnodup
  refine (expression_outcome node dst g hnodup).mono ?_
  rintro - g' ⟨code, -, rfl⟩
  exact (Declares.refl hnodup).append code

/-- Code that uses operands leaves no register in use. -/
theorem withOperands_keepsRegisters (dst : Register) (nodes : List Node)
    (use : List Operand → List Instruction) : KeepsRegisters (withOperands dst nodes use) := by
  intro g hnodup
  refine (withOperands_run (fun node _ => expression_outcome node) dst use hnodup).mono ?_
  rintro - g' ⟨code, operands, -, rfl⟩
  exact (Declares.refl hnodup).append _

theorem throw_keepsRegisters {e : CodeError} (hkind : e.isRegisterFault = false) :
    KeepsRegisters (throw e) :=
  fun _ hnodup => throw_outcome hnodup hkind

theorem jumpUnless_keepsRegisters (condition : Node) (dst : Register) (label : String) :
    KeepsRegisters (jumpUnless condition dst label) := by
  rw [jumpUnless_eq]
  exact withOperands_keepsRegisters dst _ _

/-- Steps that answer from the state go on from the same state. -/
theorem keepsRegisters_get {step : Generator → Gen Unit}
    (h : ∀ known, KeepsRegisters (step known)) :
    KeepsRegisters (do step (← get)) :=
  fun g hnodup => h g g hnodup

/-- A question to the generator may fail, but not over a register. -/
theorem keepsRegisters_query {α : Type} {ask : Generator → Except CodeError α} {step : α → Gen Unit}
    (hkind : ∀ g e, ask g = .error e → e.isRegisterFault = false)
    (h : ∀ answer, KeepsRegisters (step answer)) : KeepsRegisters (do step (← query ask)) := by
  intro g hnodup
  refine (query_outcome hnodup (hkind g)).bind ?_
  -- The question has changed nothing, so that the step goes on from the same state.
  rintro answer g₁ ⟨-, rfl⟩
  exact h answer g₁ hnodup

/-! ## Declarations and assignments -/

theorem checkNew_keepsRegisters (name : String) : KeepsRegisters (checkNew name) := by
  refine keepsRegisters_get fun known => ?_
  split
  · exact throw_keepsRegisters rfl
  · exact fun _ hnodup => Declares.refl hnodup

theorem computeInto_outcome (register : Register) (node : Node) {g : Generator}
    (hnodup : g.registers.reserved.Nodup) :
    Outcome g (fun _ g' => Appends g g') (computeInto register node g) := by
  unfold computeInto
  refine (query_outcome hnodup fun e => operand?_error).bind ?_
  rintro found g₁ ⟨-, rfl⟩
  cases found with
  | some operand =>
    simp only [emit_apply]
    exact Appends.emit rfl
  | none => exact expression_outcome node register g₁ hnodup

/-- A variable gets a register of its own, which stays in use. -/
theorem declareVariable_keepsRegisters (name : String) (value : Node) :
    KeepsRegisters (do
      let register ← reserveHigh
      computeInto register value
      modify fun g => { g with variableTable := (name, register) :: g.variableTable }) := by
  intro g hnodup
  refine (reserveBy_outcome Register.all.reverse hnodup).bind ?_
  rintro r g₁ ⟨hfree, rfl⟩
  -- The register was free, so that it is not in use twice while the value is computed.
  have hheld : ([r] ++ g.registers.reserved).Nodup := by simpa using ⟨hfree, hnodup⟩
  refine ((computeInto_outcome r value (g := g.hold [r]) hheld).of_later (Grown.hold hheld)).bind ?_
  rintro - g₂ ⟨code, -, rfl⟩
  -- The entry and its register appear together, which is all that has changed.
  exact ⟨hheld, ⟨[(name, r)], rfl, rfl⟩, rfl⟩

/-- A declaration leaves one register in use, or none if it is of a device. -/
theorem declaration_keepsRegisters (name : String) (value : Node) :
    KeepsRegisters (declaration name value) := by
  refine (checkNew_keepsRegisters name).seq ?_
  split
  · -- A device takes no register.
    exact fun g hnodup => (Declares.refl hnodup).congr ⟨rfl, rfl⟩ ⟨rfl, rfl⟩ rfl
  · exact declareVariable_keepsRegisters name value

theorem deviceStore_keepsRegisters (config : DeviceConfig) (name : String) (index : Option Node)
    (property : Option String) (value : Node) (dst : Register) :
    KeepsRegisters (deviceStore config name index property value dst) := by
  cases property with
  | none => exact throw_keepsRegisters rfl
  | some property =>
    -- A slot of a named device cannot be written, and this is refused before any operand.
    by_cases hunnamed :
        index = none ∨ ∀ deviceName mode, config.addressing ≠ .namedBatch deviceName mode
    · rw [deviceStore_eq config name index property value dst hunnamed]
      exact withOperands_keepsRegisters dst _ _
    · push Not at hunnamed
      obtain ⟨hindexed, deviceName, mode, haddress⟩ := hunnamed
      obtain ⟨node, rfl⟩ := Option.ne_none_iff_exists'.1 hindexed
      unfold deviceStore
      rw [haddress]
      exact throw_keepsRegisters rfl

/-- A value that is computed aside takes a temporary, which is free again after the move. -/
theorem computeAside_keepsRegisters (register : Register) (value : Node) :
    KeepsRegisters (do
      let temporary ← reserve
      expression value temporary
      emit (.move register (.register temporary))
      release temporary) := by
  intro g hnodup
  refine (reserveBy_outcome Register.all hnodup).bind ?_
  rintro r g₁ ⟨hfree, rfl⟩
  have hheld : ([r] ++ g.registers.reserved).Nodup := by simpa using ⟨hfree, hnodup⟩
  refine ((expression_outcome value r (g.hold [r]) hheld).of_later (Grown.hold hheld)).bind ?_
  rintro - g₂ ⟨code, -, rfl⟩
  simp only [bind, EStateM.bind, emit_apply, Generator.append_hold, Generator.append_append,
    release_hold]
  exact (Declares.refl hnodup).append _

theorem assignment_keepsRegisters (name : String) (index : Option Node) (property : Option String)
    (value : Node) (dst : Register) :
    KeepsRegisters (assignment name index property value dst) := by
  refine keepsRegisters_get fun known => ?_
  split
  · exact deviceStore_keepsRegisters _ name index property value dst
  · refine keepsRegisters_query (fun g e => registerOf_error) fun register => ?_
    refine keepsRegisters_query (fun g e => operand?_error) fun found => ?_
    -- An operand is moved, and any other value is computed aside or in place.
    cases found with
    | some operand => exact emit_keepsRegisters _
    | none =>
      refine keepsRegisters_get fun known => ?_
      split
      · exact computeAside_keepsRegisters register value
      · exact expression_keepsRegisters value register

/-! ## Control -/

theorem loopControl_keepsRegisters (kind : LoopControl) : KeepsRegisters (loopControl kind) := by
  refine keepsRegisters_get fun known => ?_
  split
  · exact emit_keepsRegisters _
  · exact throw_keepsRegisters rfl

/-- Labels are no matter of registers. -/
theorem keepsRegisters_newLabel {stem : String} {step : String → Gen Unit}
    (h : ∀ label, KeepsRegisters (step label)) : KeepsRegisters (do step (← newLabel stem)) := by
  intro g hnodup
  have hgrown : Grown g { g with labels := (g.labels.next stem).2 } := Grown.of_eq hnodup rfl rfl
  have hlater := h (g.labels.next stem).1 { g with labels := (g.labels.next stem).2 } hnodup
  refine (hlater.of_later hgrown).mono ?_
  intro _ g' hdeclared
  exact hdeclared.congr ⟨rfl, rfl⟩ ⟨rfl, rfl⟩ hdeclared.loops

/-- A loop leaves in use what its body does, and its labels are taken off the stack again. -/
theorem loopWith_keepsRegisters (startStem endStem : String) {test : String → Gen Unit}
    {body : Gen Unit} (htests : ∀ label, KeepsRegisters (test label))
    (hkeeps : KeepsRegisters body) :
    KeepsRegisters (loopWith startStem endStem test body) := by
  refine keepsRegisters_newLabel fun startLabel => keepsRegisters_newLabel fun endLabel => ?_
  intro g hnodup
  -- Between the two changes of the stack of loops the steps go on as they would outside.
  have hinside : KeepsRegisters (do
      emit (.label startLabel)
      test endLabel
      body
      emit (.jump startLabel)
      emit (.label endLabel)) :=
    (emit_keepsRegisters _).seq ((htests endLabel).seq (hkeeps.seq
      ((emit_keepsRegisters _).seq (emit_keepsRegisters _))))
  have hgrown : Grown g { g with loops := LoopStack.push g.loops ⟨endLabel, startLabel⟩ } :=
    Grown.of_eq hnodup rfl rfl
  have hrun := hinside { g with loops := LoopStack.push g.loops ⟨endLabel, startLabel⟩ } hnodup
  -- The stack is popped behind the body, which has left it as it was.
  have hended : Outcome g (fun _ g' => Declares g g') (((do
      emit (.label startLabel)
      test endLabel
      body
      emit (.jump startLabel)
      emit (.label endLabel)) >>= fun _ =>
        modify fun g => { g with loops := LoopStack.pop g.loops } : Gen Unit)
          { g with loops := LoopStack.push g.loops ⟨endLabel, startLabel⟩ }) := by
    refine (hrun.of_later hgrown).bind ?_
    intro _ g₁ hdeclared
    exact hdeclared.congr ⟨rfl, rfl⟩ ⟨rfl, rfl⟩ (congrArg LoopStack.pop hdeclared.loops)
  simp only [bind_assoc] at hended
  exact hended

theorem statements_keepsRegisters {nodes : List Node} (dst : Register)
    (hkeeps : ∀ node ∈ nodes, KeepsRegisters (statement node dst)) :
    KeepsRegisters (statements nodes dst) := by
  induction nodes with
  | nil =>
    rw [statements]
    exact fun _ hnodup => Declares.refl hnodup
  | cons node rest ih =>
    rw [statements]
    exact (hkeeps node (List.mem_cons_self ..)).seq
      (ih fun n hn => hkeeps n (List.mem_cons_of_mem _ hn))

theorem otherwise_keepsRegisters {node : Option Node} (dst : Register)
    (hkeeps : ∀ n ∈ node.toList, KeepsRegisters (statement n dst)) :
    KeepsRegisters (otherwise node dst) := by
  cases node with
  | none =>
    rw [otherwise]
    exact fun _ hnodup => Declares.refl hnodup
  | some n =>
    rw [otherwise]
    exact hkeeps n (by simp)

theorem branch_keepsRegisters {condition thenBranch : Node} {elseBranch : Option Node}
    (dst : Register) (hkeepsThen : KeepsRegisters (statement thenBranch dst))
    (hkeepsElse : ∀ n ∈ elseBranch.toList, KeepsRegisters (statement n dst)) :
    KeepsRegisters (statement (.branch condition thenBranch elseBranch) dst) := by
  have hother := otherwise_keepsRegisters dst hkeepsElse
  rw [statement]
  -- A condition that is known leaves one branch.
  split
  · exact hkeepsThen
  · exact hother
  · split
    · refine keepsRegisters_newLabel fun elseLabel => keepsRegisters_newLabel fun endLabel => ?_
      exact (jumpUnless_keepsRegisters condition dst elseLabel).seq (hkeepsThen.seq
        ((emit_keepsRegisters _).seq ((emit_keepsRegisters _).seq
          (hother.seq (emit_keepsRegisters _)))))
    · refine keepsRegisters_newLabel fun endLabel => ?_
      exact (jumpUnless_keepsRegisters condition dst endLabel).seq
        (hkeepsThen.seq (emit_keepsRegisters _))

/-- **Statements leave in use the registers of the variables that they declare, and no others.** -/
theorem statement_outcome (node : Node) (dst : Register) : KeepsRegisters (statement node dst) := by
  induction node using Node.partsInduction with
  | step node ih =>
    cases node with
    | block body =>
      rw [statement]
      exact statements_keepsRegisters dst ih
    | branch condition thenBranch elseBranch =>
      exact branch_keepsRegisters dst (ih thenBranch (by simp [Node.parts]))
        fun n hn => ih n (by simp only [Node.parts, List.mem_cons, hn, or_true])
    | whileLoop condition body =>
      have hkeeps := ih body (by simp [Node.parts])
      rw [statement]
      -- A loop that is never entered has no code, and declares nothing.
      split
      · exact fun _ hnodup => Declares.refl hnodup
      · exact loopWith_keepsRegisters _ _ (fun _ _ hnodup => Declares.refl hnodup) hkeeps
      · exact loopWith_keepsRegisters _ _ (jumpUnless_keepsRegisters condition dst) hkeeps
    | loop body =>
      rw [statement]
      exact loopWith_keepsRegisters _ _ (fun _ _ hnodup => Declares.refl hnodup)
        (ih body (by simp [Node.parts]))
    | control kind =>
      rw [statement]
      exact loopControl_keepsRegisters kind
    | declare name value =>
      rw [statement]
      exact declaration_keepsRegisters name value
    | assign name index property value =>
      rw [statement]
      exact assignment_keepsRegisters name index property value dst
    | _ =>
      rw [statement]
      · exact expression_keepsRegisters _ dst
      all_goals simp

end Gen
end ChipScript
