import ChipScript.Proofs.Chip.Operands
import ChipScript.Proofs.Node.Parts
import ChipScript.Proofs.Step

/-!
# How generation changes its state

Generation may stop at any place, and what it has changed by then stays.  Two facts hold wherever it
stops: the registers in use and the variables have only become more, and the registers of the new
variables are among the registers newly in use (`Grown`).  `Outcome` joins this with what a step
leaves behind when it succeeds, and `Outcome.bind` follows the order of steps.

The main result is `expression_outcome`: code for a value is straight-line code, and once it is
there nothing else of the state has changed.  Every temporary is free again.
-/

namespace ChipScript

/-! ## Straight-line code -/

/-- Whether an instruction always passes on to the next one, and cannot be jumped to. -/
def Instruction.isStraight : Instruction → Bool
  | label _ | jump _ | branch _ _ _ _ | branchRelative _ _ _ _ => false
  | _ => true

/-- Whether an error says that registers were freed twice or not at all. -/
def CodeError.isRegisterFault : CodeError → Bool
  | registerAlreadyFree _ | registerLeak _ => true
  | _ => false

namespace Generator

/-- The registers of the variables. -/
def owned (g : Generator) : List Register :=
  g.variableTable.map (·.2)

/-- The state with more code. -/
def append (g : Generator) (code : List Instruction) : Generator :=
  { g with code := g.code ++ code }

/-- The state with more registers in use. -/
def hold (g : Generator) (taken : List Register) : Generator :=
  { g with registers := ⟨taken ++ g.registers.reserved⟩ }

@[simp] theorem append_registers (g : Generator) (code : List Instruction) :
    (g.append code).registers = g.registers := rfl

@[simp] theorem append_variableTable (g : Generator) (code : List Instruction) :
    (g.append code).variableTable = g.variableTable := rfl

@[simp] theorem append_deviceTable (g : Generator) (code : List Instruction) :
    (g.append code).deviceTable = g.deviceTable := rfl

@[simp] theorem append_loops (g : Generator) (code : List Instruction) :
    (g.append code).loops = g.loops := rfl

@[simp] theorem append_labels (g : Generator) (code : List Instruction) :
    (g.append code).labels = g.labels := rfl

@[simp] theorem append_code_toList (g : Generator) (code : List Instruction) :
    (g.append code).code.toList = g.code.toList ++ code := by
  simp [append]

@[simp] theorem append_code_size (g : Generator) (code : List Instruction) :
    (g.append code).code.size = g.code.size + code.length := by
  rw [← Array.length_toList, append_code_toList]
  simp

@[simp] theorem append_nil (g : Generator) : g.append [] = g := by
  simp [append]

@[simp] theorem append_append (g : Generator) (code more : List Instruction) :
    (g.append code).append more = g.append (code ++ more) := by
  simp [append, ← Array.toList_inj]

/-- What has been added is known from the two states. -/
theorem append_injective {g : Generator} {code more : List Instruction}
    (h : g.append code = g.append more) : code = more := by
  have hcode := congrArg (fun g => g.code.toList) h
  simp only [append_code_toList] at hcode
  exact List.append_cancel_left hcode

@[simp] theorem hold_reserved (g : Generator) (taken : List Register) :
    (g.hold taken).registers.reserved = taken ++ g.registers.reserved := rfl

@[simp] theorem hold_variableTable (g : Generator) (taken : List Register) :
    (g.hold taken).variableTable = g.variableTable := rfl

@[simp] theorem hold_nil (g : Generator) : g.hold [] = g := rfl

/-- Code is appended beside the registers in use. -/
theorem append_hold (g : Generator) (code : List Instruction) (taken : List Register) :
    (g.hold taken).append code = (g.append code).hold taken := rfl

@[simp] theorem hold_hold (g : Generator) (taken more : List Register) :
    (g.hold taken).hold more = g.hold (more ++ taken) := by
  simp [hold]

end Generator

/-! ## Growth -/

/-- What holds of the state wherever generation stops: there are more variables and more registers
    in use, no register is in use twice, and new variables have registers newly in use. -/
structure Grown (g g' : Generator) : Prop where
  /-- No register is in use twice. -/
  nodup : g'.registers.reserved.Nodup
  /-- The new variables, and the registers newly in use. -/
  new : ∃ entries taken, g'.variableTable = entries ++ g.variableTable ∧
    g'.registers.reserved = taken ++ g.registers.reserved ∧ (entries.map (·.2)).Sublist taken

namespace Grown

theorem refl {g : Generator} (hnodup : g.registers.reserved.Nodup) : Grown g g :=
  ⟨hnodup, [], [], rfl, rfl, List.Sublist.slnil⟩

/-- Growth from one state to another and on to a third. -/
theorem trans {g g₁ g₂ : Generator} (hfirst : Grown g g₁) (hsecond : Grown g₁ g₂) : Grown g g₂ := by
  obtain ⟨entries, taken, hv, hr, hs⟩ := hfirst.new
  obtain ⟨entries', taken', hv', hr', hs'⟩ := hsecond.new
  -- The latest entries stand first, in the table and among the registers.
  refine ⟨hsecond.nodup, entries' ++ entries, taken' ++ taken, ?_, ?_, ?_⟩
  · rw [hv', hv, List.append_assoc]
  · rw [hr', hr, List.append_assoc]
  · rw [List.map_append]
    exact hs'.append hs

theorem append {g g' : Generator} (h : Grown g g') (code : List Instruction) :
    Grown g (g'.append code) :=
  ⟨h.nodup, h.new⟩

theorem hold {g : Generator} {taken : List Register}
    (hnodup : (taken ++ g.registers.reserved).Nodup) : Grown g (g.hold taken) :=
  ⟨hnodup, [], taken, rfl, rfl, List.nil_sublist taken⟩

end Grown

/-! ## Outcomes -/

/-- A step that began at `g` ends as expected, or stops with an error that is none about registers
    freed twice or not at all. -/
def Outcome {α : Type} (g : Generator) (post : α → Generator → Prop) :
    EStateM.Result CodeError Generator α → Prop
  | .ok a g' => post a g'
  | .error e g' => e.isRegisterFault = false ∧ Grown g g'

namespace Outcome

variable {α β : Type} {g g₁ : Generator}

/-- What is expected may be weakened. -/
theorem mono {post weaker : α → Generator → Prop} {r : EStateM.Result CodeError Generator α}
    (h : Outcome g post r) (himp : ∀ a g', post a g' → weaker a g') : Outcome g weaker r := by
  cases r with
  | ok a g' => exact himp a g' h
  | error e g' => exact h

/-- A later step may be seen as one that began earlier. -/
theorem of_later {post : α → Generator → Prop} {r : EStateM.Result CodeError Generator α}
    (hgrown : Grown g g₁) (h : Outcome g₁ post r) : Outcome g post r := by
  cases r with
  | ok a g' => exact h
  | error e g' => exact ⟨h.1, hgrown.trans h.2⟩

/-- One step after another, both seen as begun at `g`: the second is looked at only where the first
    succeeds. -/
theorem bind {x : Gen α} {f : α → Gen β} {post : α → Generator → Prop}
    {result : β → Generator → Prop} (hfirst : Outcome g post (x g₁))
    (hsecond : ∀ a g₂, post a g₂ → Outcome g result (f a g₂)) :
    Outcome g result ((x >>= f) g₁) := by
  -- An error of the first step is an error of the sequence, with the state that it stopped in.
  change Outcome g result (EStateM.bind x f g₁)
  unfold EStateM.bind
  cases h : x g₁ with
  | ok a g₂ =>
    rw [h] at hfirst
    exact hsecond a g₂ hfirst
  | error e g₂ =>
    rw [h] at hfirst
    exact hfirst

end Outcome

namespace Gen

/-! ## Elementary steps -/

@[simp] theorem emit_apply (instruction : Instruction) (g : Generator) :
    emit instruction g = .ok () (g.append [instruction]) := by
  simp [emit, Generator.append, modify, modifyGet, MonadStateOf.modifyGet, EStateM.modifyGet]

@[simp] theorem emitAll_apply (code : List Instruction) (g : Generator) :
    emitAll code g = .ok () (g.append code) := by
  induction code generalizing g with
  | nil => simp [emitAll, pure, EStateM.pure]
  | cons instruction rest ih =>
    simp [emitAll, bind, EStateM.bind, ih]

/-- Reserving takes a free register, or stops without a change. -/
theorem reserveBy_take (candidates : List Register) (g : Generator) :
    (∃ r, r ∉ g.registers.reserved ∧
      reserveBy (·.take candidates) g = .ok r (g.hold [r])) ∨
    reserveBy (·.take candidates) g = .error (.registersExhausted .first .last) g := by
  -- The first candidate that is free is taken, if there is one.
  cases hfound : candidates.find? g.registers.isFree with
  | none =>
    right
    simp [reserveBy, RegisterFile.take, hfound]
  | some r =>
    left
    have hfree := List.find?_some hfound
    refine ⟨r, by simpa [RegisterFile.isFree] using hfree, ?_⟩
    simp [reserveBy, RegisterFile.take, hfound, Generator.hold]

/-- A register that is reserved was free, and is all that has changed. -/
theorem reserveBy_outcome (candidates : List Register) {g : Generator}
    (hnodup : g.registers.reserved.Nodup) :
    Outcome g (fun r g' => r ∉ g.registers.reserved ∧ g' = g.hold [r])
      (reserveBy (·.take candidates) g) := by
  rcases reserveBy_take candidates g with ⟨r, hfree, h⟩ | h
  · rw [h]
    exact ⟨hfree, rfl⟩
  · rw [h]
    exact ⟨rfl, Grown.refl hnodup⟩

/-- A register that is taken last is the first one to be free again. -/
theorem release_hold (g : Generator) (r : Register) : release r (g.hold [r]) = .ok () g := by
  simp [release, RegisterFile.release, RegisterFile.isFree, Generator.hold]

/-- Registers that were taken one after the other are all free again after `releaseAll`. -/
theorem releaseAll_hold (taken : List Register) (g : Generator)
    (hnodup : (taken.reverse ++ g.registers.reserved).Nodup) :
    releaseAll taken (g.hold taken.reverse) = .ok () g := by
  induction taken generalizing g with
  | nil => simp [releaseAll, pure, EStateM.pure]
  | cons r rest ih =>
    -- The first register of the list was taken first, and lies below the others.
    have hdistinct : rest.reverse.Nodup ∧ r ∉ rest.reverse := by
      simp only [List.reverse_cons, List.append_assoc, List.singleton_append] at hnodup
      have hparts := List.nodup_append.1 hnodup
      exact ⟨hparts.1, fun hmem => hparts.2.2 r hmem r (List.mem_cons_self ..) rfl⟩
    have hfreed : release r (g.hold (r :: rest).reverse) = .ok () (g.hold rest.reverse) := by
      simp [release, RegisterFile.release, RegisterFile.isFree, Generator.hold,
        List.erase_append_right _ hdistinct.2]
    have hafter : releaseAll rest (g.hold rest.reverse) = .ok () g := by
      refine ih g (hnodup.sublist ?_)
      simp
    simp only [releaseAll, bind, EStateM.bind, hfreed]
    exact hafter

/-! ## Values -/

/-- Only straight-line code has been added. -/
def Appends (g g' : Generator) : Prop :=
  ∃ code, (∀ instruction ∈ code, instruction.isStraight = true) ∧ g' = g.append code

theorem Appends.refl (g : Generator) : Appends g g :=
  ⟨[], by simp, by simp⟩

theorem Appends.emit {g : Generator} {instruction : Instruction}
    (hstraight : instruction.isStraight = true) : Appends g (g.append [instruction]) :=
  ⟨[instruction], by simpa using hstraight, rfl⟩

/-- Operands that have been gathered: code has been added, and the temporaries that the scope got
    since are in use, the latest first. -/
def Gathers (g : Generator) (scope : Scope) {α : Type}
    (result : α × Scope) (g' : Generator) : Prop :=
  ∃ temporaries code, result.2.temporaries = scope.temporaries ++ temporaries ∧
    (∀ instruction ∈ code, instruction.isStraight = true) ∧
    (temporaries.reverse ++ g.registers.reserved).Nodup ∧
    g' = (g.append code).hold temporaries.reverse

/-- A question to the state changes nothing. -/
theorem query_outcome {α : Type} {ask : Generator → Except CodeError α} {g : Generator}
    (hnodup : g.registers.reserved.Nodup)
    (hkind : ∀ e, ask g = .error e → e.isRegisterFault = false) :
    Outcome g (fun a g' => ask g = .ok a ∧ g' = g) (query ask g) := by
  unfold query
  cases hanswer : ask g with
  | ok a => exact ⟨rfl, rfl⟩
  | error e => exact ⟨hkind e hanswer, Grown.refl hnodup⟩

/-- A name that stands for no register is an error about the script. -/
theorem registerOf_error {g : Generator} {name : String} {index : Option Node}
    {property : Option String} {e : CodeError} (h : g.registerOf name index property = .error e) :
    e.isRegisterFault = false := by
  unfold Generator.registerOf at h
  split at h
  · obtain rfl := Except.error.inj h
    rfl
  · split at h
    · obtain rfl := Except.error.inj h
      rfl
    · cases h

theorem operand?_error {g : Generator} {node : Node} {e : CodeError}
    (h : g.operand? node = .error e) : e.isRegisterFault = false := by
  cases node with
  | read name index property =>
    rw [Generator.operand?] at h
    split at h
    · cases h
    · cases hanswer : g.registerOf name index property with
      | ok r => simp [hanswer, Except.map] at h
      | error e' =>
        simp only [hanswer, Except.map, Except.error.injEq] at h
        exact h ▸ registerOf_error hanswer
  | _ => cases h

/-- What a value's code does to the state, for one node. -/
abbrev ComputesTidily (node : Node) : Prop :=
  ∀ (dst : Register) (g : Generator), g.registers.reserved.Nodup →
    Outcome g (fun _ g' => Appends g g') (expression node dst g)

/-- One operand is gathered: it takes a temporary if the destination is taken, and none
    otherwise. -/
theorem operandIn_outcome {node : Node} (htidy : ComputesTidily node) (scope : Scope)
    {g : Generator} (hnodup : g.registers.reserved.Nodup) :
    Outcome g (Gathers g scope) (operandIn scope node (expression node) g) := by
  unfold operandIn
  refine (query_outcome hnodup fun e => operand?_error).bind ?_
  rintro found g₁ ⟨-, rfl⟩
  cases found with
  | some operand => exact ⟨[], [], by simp, by simp, by simpa using hnodup, by simp⟩
  | none =>
    by_cases htaken : scope.taken = true
    · -- The destination holds an earlier operand, and a temporary is taken.
      simp only [htaken, if_true]
      refine (reserveBy_outcome Register.all hnodup).bind ?_
      rintro r g₂ ⟨hfree, rfl⟩
      have hheld : ([r] ++ g₁.registers.reserved).Nodup := by simpa using ⟨hfree, hnodup⟩
      refine ((htidy r (g₁.hold [r]) hheld).of_later (Grown.hold hheld)).bind ?_
      rintro - g₃ ⟨code, hstraight, rfl⟩
      exact ⟨[r], code, rfl, hstraight, hheld, Generator.append_hold g₁ code [r]⟩
    · simp only [htaken]
      refine (htidy scope.dst g₁ hnodup).bind ?_
      rintro - g₂ ⟨code, hstraight, rfl⟩
      exact ⟨[], code, by simp, hstraight, by simpa using hnodup, by simp⟩

/-- **Operands are gathered one after another**, and their temporaries pile up in that order. -/
theorem operandsIn_outcome (nodes : List Node) (htidy : ∀ node ∈ nodes, ComputesTidily node)
    (scope : Scope) {g : Generator} (hnodup : g.registers.reserved.Nodup) :
    Outcome g (Gathers g scope) (operandsIn scope nodes g) := by
  induction nodes generalizing scope g with
  | nil =>
    rw [operandsIn]
    exact ⟨[], [], by simp, by simp, by simpa using hnodup, by simp⟩
  | cons node rest ih =>
    rw [operandsIn]
    refine (operandIn_outcome (htidy node (List.mem_cons_self ..)) scope hnodup).bind ?_
    rintro ⟨operand, scope₁⟩ g₁ ⟨first, code, hlisted, hstraight, hheld, rfl⟩
    -- The others are gathered over the temporaries of the first.
    have hlater := ih (fun n hn => htidy n (List.mem_cons_of_mem _ hn)) scope₁
      (g := (g.append code).hold first.reverse) hheld
    refine (hlater.of_later ((Grown.refl hnodup).append code |>.trans (Grown.hold hheld))).bind ?_
    rintro ⟨operands, scope₂⟩ g₂ ⟨second, more, hlisted', hstraight', hheld', rfl⟩
    -- Temporaries and code of both parts follow each other, and none is in use twice.
    refine ⟨first ++ second, code ++ more, ?_, ?_, ?_, ?_⟩
    · simp only at hlisted hlisted' ⊢
      rw [hlisted', hlisted, List.append_assoc]
    · intro instruction hmem
      rcases List.mem_append.1 hmem with h | h
      · exact hstraight instruction h
      · exact hstraight' instruction h
    · simpa using hheld'
    · simp [Generator.append_hold]

/-- The code that uses gathered operands is appended, and their temporaries are freed. -/
theorem closeScope_gathered {g : Generator} {scope : Scope} {temporaries : List Register}
    (code used : List Instruction) (hlisted : scope.temporaries = temporaries)
    (hheld : (temporaries.reverse ++ g.registers.reserved).Nodup) :
    (do emitAll used; closeScope scope) ((g.append code).hold temporaries.reverse) =
      .ok () (g.append (code ++ used)) := by
  rw [bind_apply (emitAll_apply _ _), closeScope, hlisted, Generator.append_hold,
    Generator.append_append]
  exact releaseAll_hold temporaries _ hheld

/-- Gathered operands are used and their temporaries freed: only code is left. -/
theorem withOperands_run {nodes : List Node} (htidy : ∀ node ∈ nodes, ComputesTidily node)
    (dst : Register) (use : List Operand → List Instruction) {g : Generator}
    (hnodup : g.registers.reserved.Nodup) :
    Outcome g (fun _ g' => ∃ code operands, (∀ instruction ∈ code, instruction.isStraight = true) ∧
      g' = g.append (code ++ use operands)) (withOperands dst nodes use g) := by
  unfold withOperands
  refine (operandsIn_outcome nodes htidy (.opened dst) hnodup).bind ?_
  rintro ⟨operands, scope⟩ g₁ ⟨temporaries, code, hlisted, hstraight, hheld, rfl⟩
  have hlisted' : scope.temporaries = temporaries := hlisted
  have hclosed := closeScope_gathered code (use operands) hlisted' hheld
  -- What follows the operands always succeeds: their registers are in use, each once.
  show Outcome g _ ((do emitAll (use operands); closeScope scope) _)
  rw [hclosed]
  exact ⟨code, operands, hstraight, rfl⟩

/-- Straight-line code that uses operands leaves only straight-line code behind. -/
theorem withOperands_outcome {nodes : List Node} (htidy : ∀ node ∈ nodes, ComputesTidily node)
    (dst : Register) {use : List Operand → List Instruction}
    (hstraight : ∀ operands, ∀ instruction ∈ use operands, instruction.isStraight = true)
    {g : Generator} (hnodup : g.registers.reserved.Nodup) :
    Outcome g (fun _ g' => Appends g g') (withOperands dst nodes use g) := by
  refine (withOperands_run htidy dst use hnodup).mono ?_
  rintro - g' ⟨code, operands, hbefore, rfl⟩
  refine ⟨code ++ use operands, ?_, rfl⟩
  intro instruction hmem
  -- The code of the operands stands before the code that uses them.
  rcases List.mem_append.1 hmem with h | h
  · exact hbefore instruction h
  · exact hstraight operands instruction h

theorem materialize_outcome {node : Node} (htidy : ComputesTidily node) (dst : Register)
    {g : Generator} (hnodup : g.registers.reserved.Nodup) :
    Outcome g (fun _ g' => Appends g g') (materialize node (expression node) dst g) := by
  unfold materialize
  refine (query_outcome hnodup fun e => operand?_error).bind ?_
  rintro found g₁ ⟨-, rfl⟩
  -- An operand takes no code, and any other value is computed.
  cases found with
  | some operand => exact Appends.refl g₁
  | none =>
    refine (htidy dst g₁ hnodup).bind ?_
    rintro - g₂ happended
    exact happended

theorem throw_outcome {α : Type} {post : α → Generator → Prop} {g : Generator} {e : CodeError}
    (hnodup : g.registers.reserved.Nodup) (hkind : e.isRegisterFault = false) :
    Outcome g post ((throw e : Gen α) g) :=
  ⟨hkind, Grown.refl hnodup⟩

theorem checkArity_outcome {g : Generator} (name : String) (expected found : Nat)
    (hnodup : g.registers.reserved.Nodup) :
    Outcome g (fun _ g' => g' = g) (checkArity name expected found g) := by
  unfold checkArity
  split
  · exact rfl
  · exact throw_outcome hnodup rfl

/-- A connective takes one temporary for its right side. -/
theorem connective_outcome (operator : Connective) {left right : Node}
    (htidyLeft : ComputesTidily left) (htidyRight : ComputesTidily right) :
    ComputesTidily (.connective operator left right) := by
  intro dst g hnodup
  rw [expression]
  refine (materialize_outcome htidyLeft dst hnodup).bind ?_
  rintro a g₁ ⟨code, hstraight, rfl⟩
  refine ((reserveBy_outcome Register.all (g := g.append code) hnodup).of_later
    ((Grown.refl hnodup).append code)).bind ?_
  -- The right side is computed with the left one in place, so it gets a register of its own.
  rintro temporary g₂ ⟨hfree, rfl⟩
  have hheld : ([temporary] ++ (g.append code).registers.reserved).Nodup := by
    simpa using ⟨hfree, hnodup⟩
  have hgrown : Grown g ((g.append code).hold [temporary]) :=
    ((Grown.refl hnodup).append code).trans (Grown.hold hheld)
  refine ((materialize_outcome htidyRight temporary
    (g := (g.append code).hold [temporary]) hheld).of_later hgrown).bind ?_
  rintro b g₃ ⟨more, hstraight', rfl⟩
  -- The temporary was taken last, so that freeing it leaves the registers as they were.
  simp only [bind, EStateM.bind, emit_apply, Generator.append_hold, Generator.append_append,
    release_hold]
  refine ⟨_, ?_, rfl⟩
  intro instruction hmem
  simp only [List.mem_append, List.mem_cons, List.not_mem_nil, or_false] at hmem
  rcases hmem with (((h | h) | rfl) | rfl) | rfl
  · exact hstraight instruction h
  · exact hstraight' instruction h
  all_goals rfl

theorem read_outcome (name : String) {index : Option Node} (property : Option String)
    (htidy : ∀ node ∈ index.toList, ComputesTidily node) :
    ComputesTidily (.read name index property) := by
  intro dst g hnodup
  -- A device is loaded from, if there is a logic type, and a variable is moved from its register.
  cases hknown : g.device? name with
  | some config =>
    cases property with
    | none =>
      simp only [expression, bind, EStateM.bind, get, getThe, MonadStateOf.get, EStateM.get, hknown]
      exact throw_outcome hnodup rfl
    | some property =>
      rw [expression_load index property dst hknown]
      exact withOperands_outcome htidy dst (by simp [loadCode, Instruction.isStraight]) hnodup
  | none =>
    simp only [expression, bind, EStateM.bind, get, getThe, MonadStateOf.get, EStateM.get, hknown]
    refine Outcome.bind (query_outcome hnodup fun e => registerOf_error) ?_
    rintro r g₁ ⟨-, rfl⟩
    rw [emit_apply]
    exact Appends.emit rfl

theorem call_outcome (name : String) {arguments : List Node}
    (htidy : ∀ node ∈ arguments, ComputesTidily node) : ComputesTidily (.call name arguments) := by
  intro dst g hnodup
  cases hcalled : Vocabulary.Command.ofName? name with
  | some command =>
    rw [expression_command arguments dst hcalled]
    refine (checkArity_outcome name _ _ hnodup).bind ?_
    rintro - g₁ rfl
    refine withOperands_outcome htidy dst ?_ hnodup
    intro operands instruction hmem
    -- Every instruction of a command goes on with the next one.
    cases command <;> simp only [commandCode, List.mem_map, List.mem_singleton] at hmem
    · obtain ⟨operand, -, rfl⟩ := hmem
      rfl
    · subst hmem
      rfl
    · subst hmem
      rfl
  | none =>
    cases hknown : Vocabulary.functionArity? name with
    | some arity =>
      rw [expression_function arguments dst hcalled hknown]
      refine (checkArity_outcome name _ _ hnodup).bind ?_
      rintro - g₁ rfl
      exact withOperands_outcome htidy dst (by simp [Instruction.isStraight]) hnodup
    | none =>
      simp only [expression, hcalled, hknown]
      exact throw_outcome hnodup rfl

/-- **Code for a value changes nothing but the code**: it is straight-line code, and all temporaries
    are free again.  Where it stops half-way the state has only grown. -/
theorem expression_outcome (node : Node) : ComputesTidily node := by
  -- All but the code of the operator itself is gathering operands, which the parts do tidily.
  induction node using Node.partsInduction with
  | step node ih =>
    cases node with
    | arithmetic operator left right =>
      intro dst g hnodup
      rw [expression_arithmetic]
      refine withOperands_outcome ih dst ?_ hnodup
      intro operands instruction hmem
      unfold binaryCode at hmem
      split at hmem <;> simp_all [Instruction.isStraight]
    | comparison operator left right =>
      intro dst g hnodup
      rw [expression_comparison]
      refine withOperands_outcome ih dst ?_ hnodup
      intro operands instruction hmem
      unfold binaryCode at hmem
      split at hmem <;> simp_all [Instruction.isStraight]
    | connective operator left right =>
      exact connective_outcome operator (ih left (by simp [Node.parts]))
        (ih right (by simp [Node.parts]))
    | not operand =>
      intro dst g hnodup
      rw [expression_not]
      refine withOperands_outcome ih dst ?_ hnodup
      intro operands instruction hmem
      unfold unaryCode at hmem
      split at hmem <;> simp_all [Instruction.isStraight]
    | choice condition thenValue elseValue =>
      intro dst g hnodup
      cases hknown : condition.value? with
      | some value =>
        rw [expression_choice_known _ _ _ hknown]
        split
        · exact ih thenValue (by simp [Node.parts]) dst g hnodup
        · exact ih elseValue (by simp [Node.parts]) dst g hnodup
      | none =>
        rw [expression_choice _ _ _ hknown]
        refine withOperands_outcome ih dst ?_ hnodup
        intro operands instruction hmem
        unfold selectCode at hmem
        split at hmem <;> simp_all [Instruction.isStraight]
    | read name index property => exact read_outcome name property ih
    | call name arguments => exact call_outcome name ih
    | number text | constant text | hash text =>
      intro dst g hnodup
      rw [expression, emit_apply]
      exact Appends.emit rfl
    | device config | block body | declare name value | assign name index property value | loop body
      | whileLoop condition body | branch condition thenBranch elseBranch | control kind =>
      intro dst g hnodup
      rw [expression]
      · -- What is no value is refused, which is no fault of the registers.
        exact throw_outcome hnodup rfl
      all_goals simp

end Gen
end ChipScript
