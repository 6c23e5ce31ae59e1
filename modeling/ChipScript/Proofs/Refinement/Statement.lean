import ChipScript.Proofs.Refinement.Run

/-!
# Code for statements performs them

`statement_implements`: the chip runs the code for a statement to the place where the run of the
statement ends, with the same trace, and with the values of the variables in their registers.  There
is one lemma for each kind of statement; those for the kinds with parts take what is known of the
parts, and a single induction puts them together.
-/

namespace ChipScript

namespace Node

mutual

/-- Whether commands are called as statements only, and nowhere that a value is expected. -/
def wellPlaced : Node → Bool
  | block body => allWellPlaced body
  | declare _ value => !value.hasCommand
  | assign _ index _ value => !value.hasCommand && !indexHasCommand index
  | loop body => body.wellPlaced
  | whileLoop condition body => !condition.hasCommand && body.wellPlaced
  | branch condition thenBranch elseBranch =>
    !condition.hasCommand && thenBranch.wellPlaced && elseWellPlaced elseBranch
  | call _ arguments => !anyHasCommand arguments
  | node => !node.hasCommand

/-- Whether commands are called as statements only, in each of several statements. -/
def allWellPlaced : List Node → Bool
  | [] => true
  | node :: rest => node.wellPlaced && allWellPlaced rest

/-- Whether commands are called as statements only, in the other branch of a choice. -/
def elseWellPlaced : Option Node → Bool
  | none => true
  | some node => node.wellPlaced

end

theorem allWellPlaced_eq_true {nodes : List Node} :
    allWellPlaced nodes = true ↔ ∀ node ∈ nodes, node.wellPlaced = true := by
  induction nodes with
  | nil => simp [allWellPlaced]
  | cons node rest ih => simp [allWellPlaced, ih]

theorem elseWellPlaced_eq_true {node : Option Node} :
    elseWellPlaced node = true ↔ ∀ n ∈ node.toList, n.wellPlaced = true := by
  cases node <;> simp [elseWellPlaced]

end Node

section Execution

variable {V : Type} [LinearOrder V] {chip : Chip V} {rounds : Nat} {g g' : Generator}
  {dst : Register} {m m' : Machine V} {s : Situation V}

attribute [local simp] execute

/-- The loop controls find the labels that they go to. -/
def LoopsFound (chip : Chip V) (loops : LoopStack) : Prop :=
  ∀ kind label, LoopStack.target? loops kind = some label →
    ∃ index, labelIndex? chip.code label = some index

/-- The chip performs a run with the code that a step of generation adds. -/
abbrev Implements (chip : Chip V) (rounds : Nat) (dst : Register) (step : Gen Unit)
    (run : Exec V Unit) : Prop :=
  ∀ (g g' : Generator) (m : Machine V) (s : Situation V), g.Ready dst →
    LoopsFound chip g.loops → m.index = g.code.size → Tracks g s m → step g = .ok () g' →
    g'.code.toList <+: chip.code → Performs chip rounds g.loops g' m (run s)

/-! ## Values -/

/-- A value that is computed and not used. -/
theorem expression_implements {node : Node} (hpure : node.hasCommand = false) :
    Implements chip rounds dst (Gen.expression node dst) (do
      let _ ← Exec.ofEval (evaluate chip.setting · node)) := by
  intro g g' m s hready _ hindex htracks h hplaced
  have hsafe : g.Safe dst node :=
    .inr (.inr fun name _ hknown => hready.scratch (Generator.mem_owned hknown))
  refine Performs.ofEval htracks
    (expression_follows hpure hready.disciplined.accounted hready.reserved
    hsafe ⟨hindex, htracks.running⟩ (fun name _ => htracks.stands name) h hplaced) ?_
  intro v m' hrunning hdone
  obtain ⟨code, -, rfl⟩ := Gen.expression_eq_ok hready.disciplined.nodup h
  exact ⟨m', .refl m', hdone.index,
    (htracks.scratch hready hrunning hdone.kept).extend fun _ _ hknown => hknown⟩

/-! ## Declarations -/

theorem declaration_implements {name : String} {value : Node} (hpure : value.hasCommand = false) :
    Implements chip rounds dst (Gen.declaration name value)
      (executeDeclaration chip.setting name value) := by
  intro g g' m s hready _ hindex htracks h hplaced
  obtain ⟨hnew, ⟨config, rfl, rfl⟩ | ⟨r, code, hnoDevice, hfree, hstraight, hcomputed, rfl⟩⟩ :=
    Gen.declaration_cases hready.disciplined.nodup h
  · -- A device is known from now on, and there is no code.
    refine ⟨m, .refl m, hindex, htracks.running, htracks.trace, Stands.define ?_ ?_⟩
    · intro other hdifferent
      refine (htracks.stands other).congr ?_ fun _ _ => rfl
      intro b hknown
      rw [Generator.binding?_declareDevice, if_neg hdifferent]
      exact hknown
    · simp [Stands, Generator.binding?_declareDevice]
  · have hexecuted : executeDeclaration chip.setting name value = (do
        let v ← Exec.ofEval (evaluate chip.setting · value)
        Exec.define name (.value v)) := by
      cases value with
      | device config => exact absurd rfl (hnoDevice config)
      | _ => rfl
    rw [hexecuted]
    have haccounted := hready.disciplined.accounted
    have hvalued := Calculator.computeInto_values (E := chip.setting.calculator)
      (s := m.contents) hpure
      (haccounted.hold hfree) (by simp) (haccounted.spares hfree value) (fun _ _ => rfl) hcomputed
    refine Performs.ofEval htracks (follows_of_valued hvalued hstraight ⟨hindex, htracks.running⟩
      (fun other _ => htracks.stands other) hplaced) ?_
    intro v m' hrunning hdone
    have hbindings := fun other =>
      Generator.binding?_declareVariable (g := (g.hold [r]).append code) hnew other r
    refine ⟨m', .refl m', hdone.index, hrunning, rfl, Stands.define ?_ ?_⟩
    · intro other hdifferent
      refine (htracks.stands other).congr ?_ ?_
      · intro b hknown
        rw [hbindings, if_neg hdifferent]
        exact hknown
      · -- The register of the new variable was free, and the others keep theirs.
        intro r' hknown
        have hmem := hready.disciplined.mem_reserved hknown
        refine hdone.kept r' (by simp [hmem]) ?_
        intro hsame
        subst hsame
        exact hfree hmem
    · exact ⟨r, by rw [hbindings, if_pos rfl], hdone.value⟩

/-! ## Assignments -/

/-- An assignment gathers its value and its index, and then writes. -/
def writeGathered (name : String) (property : Option String) : List V → Exec V Unit
  | value :: index => Exec.write name index.head? property value
  | [] => throw (.fault .meaningless)

theorem execute_assign (S : Setting V) (name : String) (index : Option Node)
    (property : Option String) (value : Node) :
    execute S rounds (.assign name index property value) = (do
      let values ← Exec.ofEval (evaluateAll S · (value :: index.toList))
      writeGathered name property values) := by
  have hall : ∀ env, evaluateAll S env (value :: index.toList) = (do
      let v ← evaluate S env value
      let slot ← evaluateIndex S env index
      return v :: slot.toList) := by
    intro env
    cases index <;> simp [evaluateAll, evaluateIndex]
  have hwritten : ∀ (v : V) (slot : Option V),
      writeGathered name property (v :: slot.toList) = Exec.write name slot property v := by
    intro v slot
    cases slot <;> rfl
  rw [execute]
  simp only [hall, Exec.ofEval_bind, Exec.ofEval_pure, bind_assoc, pure_bind, hwritten]

/-- A store to a device that the name stands for. -/
theorem deviceStore_implements {name : String} {index : Option Node} {property : Option String}
    {value : Node} (hpure : ∀ node ∈ value :: index.toList, node.hasCommand = false)
    {config : DeviceConfig} (hready : g.Ready dst) (hknown : g.device? name = some config)
    (hindex : m.index = g.code.size) (htracks : Tracks g s m)
    (h : Gen.deviceStore config name index property value dst g = .ok () g')
    (hplaced : g'.code.toList <+: chip.code) :
    Performs chip rounds g.loops g' m
      (execute chip.setting rounds (.assign name index property value) s) := by
  obtain ⟨logicType, rfl, hgathered⟩ := Gen.deviceStore_cases h
  obtain ⟨operands, code, rfl, hlength, hfollows⟩ :=
    withOperands_follows hpure hready.disciplined.accounted hready.reserved
      (.inr fun node _ other _ hbinding => hready.scratch (Generator.mem_owned hbinding))
      ⟨hindex, htracks.running⟩ (fun _ _ other _ => htracks.stands other) hgathered hplaced
  obtain ⟨a, slot, rfl⟩ := List.exists_cons_of_length_eq_add_one hlength
  rw [execute_assign]
  refine Performs.ofEval htracks hfollows ?_
  intro values m' hrunning hdone
  obtain ⟨hreached, rfl, hkept⟩ := hdone
  have hafter : Tracks (g.append code) { s with trace := m'.trace } m' :=
    (htracks.scratch hready hrunning hkept).extend fun _ _ hbinding => hbinding
  -- The name is that of a device, and either still means it or has lost its meaning.
  have hstand := htracks.stands name
  unfold Stands at hstand
  rw [Generator.binding?_eq_device.2 hknown] at hstand
  cases hmeaning : s.env name with
  | none =>
    have hwritten : writeGathered name (some logicType) ((a :: slot).map (chip.read m'))
        { s with trace := m'.trace } = _ :=
      Exec.write_undefined ⟨s.env, m'.trace⟩ hmeaning _ _
    rw [hwritten]
    exact ⟨⟨name, rfl⟩, m', .refl m', rfl⟩
  | some what =>
    cases what with
    | value v => simp [hmeaning] at hstand
    | device other =>
      simp only [hmeaning, Option.some.injEq, Binding.device.injEq] at hstand
      subst hstand
      obtain ⟨m₁, hm₁⟩ : ∃ m₁, m₁ = m'.record (.store config.target
          (slot.head?.map (chip.read m')) logicType (chip.read m' a)) := ⟨_, rfl⟩
      have hwritten : writeGathered name (some logicType) ((a :: slot).map (chip.read m'))
          { s with trace := m'.trace } = .ok () { s with trace := m₁.trace } := by
        rw [hm₁, ← List.head?_map]
        exact Exec.write_device ⟨s.env, m'.trace⟩ hmeaning _ _
      rw [hwritten]
      obtain ⟨hleads, hreached'⟩ := leads_next code [] hplaced hreached hm₁.symm
        (by rw [hm₁]; rfl) (by rw [hm₁]; rfl)
      refine ⟨m₁, hleads, hreached'.index, hreached'.running, rfl, fun other => ?_⟩
      refine (hafter.stands other).congr (fun _ hb => hb) fun r _ => ?_
      rw [hm₁]
      rfl

theorem assignment_implements {name : String} {index : Option Node} {property : Option String}
    {value : Node} (hpure : ∀ node ∈ value :: index.toList, node.hasCommand = false) :
    Implements chip rounds dst (Gen.assignment name index property value dst)
      (execute chip.setting rounds (.assign name index property value)) := by
  intro g g' m s hready _ hindex htracks h hplaced
  rcases Gen.assignment_cases h with ⟨config, hknown, hstored⟩ | ⟨hnoDevice, hstored⟩
  · exact deviceStore_implements hpure hready hknown hindex htracks hstored hplaced
  · obtain ⟨r, code, hfound, rfl, rfl, rfl, hstraight, hvalues⟩ := Calculator.variableStore_values
      (V := V) hready.disciplined.separate (hpure value (by simp)) hstored
    have hknown : g.binding? name = some (.register r) :=
      Generator.binding?_eq_register.2 ⟨hnoDevice, hfound⟩
    have hfollows := follows_of_valued
      (hvalues chip.setting.calculator _ m.contents fun _ _ => rfl) hstraight
      ⟨hindex, htracks.running⟩ (fun other _ => htracks.stands other) hplaced
    have hopened : execute chip.setting rounds (.assign name none none value) = (do
        let v ← Exec.ofEval (evaluate chip.setting · value)
        Exec.write name none none v) := by
      simp [evaluateIndex, Exec.ofEval_pure]
    rw [hopened]
    refine Performs.ofEval htracks hfollows ?_
    intro v m' hrunning hdone
    -- The name is that of a variable, so that it is no device where the value is written.
    have hnoDevice' : ∀ config, s.env name ≠ some (.device config) := by
      intro config hmeaning
      have hstand := htracks.stands name
      simp [Stands, hknown, hmeaning] at hstand
    have hwritten : Exec.write name none none v { s with trace := m'.trace } = _ :=
      Exec.write_variable ⟨s.env, m'.trace⟩ hnoDevice' v
    rw [hwritten]
    refine ⟨m', .refl m', hdone.index, hrunning, rfl, Stands.define ?_ ⟨r, hknown, hdone.value⟩⟩
    intro other hdifferent
    refine (htracks.stands other).congr (fun _ hbinding => hbinding) ?_
    intro r' hknown'
    refine hdone.kept r' (hready.disciplined.mem_reserved hknown') ?_
    intro hsame
    subst hsame
    exact hdifferent (hready.disciplined.binding?_inj hknown' hknown)

/-! ## Commands and loop controls -/

/-- A command does to the chip what it does to the script. -/
theorem perform_implements {command : Vocabulary.Command} {operands : List Operand}
    {code : List Instruction} (harity : operands.length = command.arity)
    (hreached : At (g.append code) m) (htracks : Tracks g { s with trace := m.trace } m)
    (hplaced : (g.append (code ++ Gen.commandCode command operands)).code.toList <+: chip.code) :
    Performs chip rounds g.loops (g.append (code ++ Gen.commandCode command operands)) m
      (Exec.perform command (operands.map (chip.read m)) { s with trace := m.trace }) := by
  -- Where a command only leaves an event, the chip goes on with the next instruction.
  have hrecorded : ∀ (instruction : Instruction) (event : Event V),
      Gen.commandCode command operands = [instruction] →
      chip.perform m instruction = m.record event →
      Performs chip rounds g.loops (g.append (code ++ [instruction])) m
        (Exec.record event { s with trace := m.trace }) := by
    intro instruction event hsame hperforms
    rw [hsame] at hplaced
    obtain ⟨hleads, hreached'⟩ := leads_next code [] hplaced hreached hperforms rfl rfl
    exact ⟨_, hleads, hreached'.index, hreached'.running, rfl, fun name =>
      (htracks.stands name).congr (fun _ hbinding => hbinding) fun _ _ => rfl⟩
  cases command with
  | sleep =>
    obtain ⟨duration, rfl⟩ := List.length_eq_one_iff.1 harity
    exact hrecorded (.sleep duration) _ rfl rfl
  | yield =>
    obtain rfl := List.length_eq_zero_iff.1 harity
    exact hrecorded .yield _ rfl rfl
  | hcf =>
    obtain rfl := List.length_eq_zero_iff.1 harity
    have hstep := Chip.leads_perform htracks.running (fetch hplaced hreached)
    exact ⟨_, hstep, rfl, rfl⟩

theorem command_implements {name : String} {command : Vocabulary.Command} {arguments : List Node}
    (hknown : Vocabulary.Command.ofName? name = some command)
    (hpure : ∀ node ∈ arguments, node.hasCommand = false) :
    Implements chip rounds dst (Gen.expression (.call name arguments) dst)
      (execute chip.setting rounds (.call name arguments)) := by
  intro g g' m s hready _ hindex htracks h hplaced
  rw [Gen.expression_command arguments dst hknown, bind_eq_ok] at h
  obtain ⟨⟨⟩, g₁, hchecked, h⟩ := h
  obtain ⟨harity, rfl⟩ := Gen.checkArity_eq_ok hchecked
  obtain ⟨operands, code, rfl, hlength, hfollows⟩ :=
    withOperands_follows hpure hready.disciplined.accounted hready.reserved
      (.inr fun node _ other _ hbinding => hready.scratch (Generator.mem_owned hbinding))
      ⟨hindex, htracks.running⟩ (fun _ _ other _ => htracks.stands other) h hplaced
  rw [execute]
  simp only [hknown]
  refine Performs.ofEval htracks hfollows ?_
  intro values m' hrunning hdone
  obtain ⟨hreached, rfl, hkept⟩ := hdone
  exact perform_implements (hlength.trans harity.symm) hreached
    (htracks.scratch hready hrunning hkept) hplaced

/-- A call is that of a command or of a function. -/
theorem call_implements {name : String} {arguments : List Node}
    (hpure : ∀ node ∈ arguments, node.hasCommand = false) :
    Implements chip rounds dst (Gen.expression (.call name arguments) dst)
      (execute chip.setting rounds (.call name arguments)) := by
  cases hknown : Vocabulary.Command.ofName? name with
  | some command => exact command_implements hknown hpure
  | none =>
    rw [execute]
    simp only [hknown]
    refine expression_implements ?_
    simp [Node.hasCommand, Vocabulary.isCommand, hknown, Node.anyHasCommand_eq_false.2 hpure]

theorem loopControl_implements (kind : LoopControl) :
    Implements chip rounds dst (Gen.loopControl kind)
      (execute chip.setting rounds (.control kind)) := by
  intro g g' m s hready hfound hindex htracks h hplaced
  obtain ⟨label, hgoal, rfl⟩ := Gen.loopControl_cases h
  obtain ⟨target, hplace⟩ := hfound kind label hgoal
  have hleads := jump_taken [] [] hplaced ⟨hindex, htracks.running⟩ hplace
  rw [execute]
  exact ⟨_, hleads.leads, (htracks.move target).extend fun _ _ hbinding => hbinding,
    label, hgoal, hplace⟩

/-! ## Sequences and choices -/

theorem statements_implements {nodes : List Node}
    (heach : ∀ node ∈ nodes, Implements chip rounds dst (Gen.statement node dst)
      (execute chip.setting rounds node)) :
    Implements chip rounds dst (Gen.statements nodes dst)
      (executeAll chip.setting rounds nodes) := by
  induction nodes with
  | nil =>
    intro g g' m s _ _ hindex htracks h _
    rw [Gen.statements] at h
    cases h
    rw [executeAll]
    exact ⟨m, .refl m, hindex, htracks⟩
  | cons node rest ih =>
    intro g g' m s hready hfound hindex htracks h hplaced
    rw [Gen.statements, bind_eq_ok] at h
    obtain ⟨⟨⟩, g₁, hfirst, hlater⟩ := h
    have hone := Gen.statement_extends node dst g g₁ hready.disciplined.nodup hfirst
    have hmore := Gen.statements_extends dst (fun n _ => Gen.statement_extends n dst) g₁ g'
      hone.nodup hlater
    rw [executeAll]
    refine (heach node (by simp) g g₁ m s hready hfound hindex htracks hfirst
      (hmore.code.trans hplaced)).bind hmore.known ?_
    -- The loops around are the same for all statements of the sequence.
    intro m₁ s₁ hindex₁ htracks₁
    rw [← hone.loops]
    refine ih (fun n hmem => heach n (List.mem_cons_of_mem _ hmem)) g₁ g' m₁ s₁
      (hready.extends hone) ?_ hindex₁ htracks₁ hlater hplaced
    rw [hone.loops]
    exact hfound

theorem otherwise_implements {node : Option Node}
    (heach : ∀ n ∈ node.toList, Implements chip rounds dst (Gen.statement n dst)
      (execute chip.setting rounds n)) :
    Implements chip rounds dst (Gen.otherwise node dst)
      (executeElse chip.setting rounds node) := by
  cases node with
  | none =>
    intro g g' m s _ _ hindex htracks h _
    rw [Gen.otherwise] at h
    cases h
    rw [executeElse]
    exact ⟨m, .refl m, hindex, htracks⟩
  | some n =>
    rw [Gen.otherwise, executeElse]
    exact heach n (by simp)

/-- A condition that is known needs no test. -/
theorem evaluate_of_value? (S : Setting V) (env : Environment V) {condition : Node} {x : Float}
    (hknown : condition.value? = some x) (trace : Trace V) :
    evaluate S env condition trace = .ok (S.number x) trace := by
  cases condition with
  | number text =>
    rw [evaluate, S.word_of_read? hknown]
    rfl
  | constant name =>
    rw [evaluate, S.word_constant hknown]
    rfl
  | hash text =>
    cases hknown
    rw [evaluate]
    rfl
  | _ => cases hknown

theorem holds_of_truth? (S : Setting V) {condition : Node} {b : Bool}
    (hknown : condition.truth? = some b) :
    ∃ v, S.holds v = b ∧ ∀ env trace, evaluate S env condition trace = .ok v trace := by
  obtain ⟨x, hvalue, rfl⟩ := Option.map_eq_some_iff.1 hknown
  exact ⟨S.number x, S.holds_number x, fun env trace => evaluate_of_value? S env hvalue trace⟩

theorem branchKnown_implements {condition thenBranch : Node} {elseBranch : Option Node} {b : Bool}
    (hknown : condition.truth? = some b)
    (hfirst : Implements chip rounds dst (Gen.statement thenBranch dst)
      (execute chip.setting rounds thenBranch))
    (hsecond : Implements chip rounds dst (Gen.otherwise elseBranch dst)
      (executeElse chip.setting rounds elseBranch)) :
    Implements chip rounds dst (Gen.statement (.branch condition thenBranch elseBranch) dst)
      (execute chip.setting rounds (.branch condition thenBranch elseBranch)) := by
  obtain ⟨v, hholds, hvalue⟩ := holds_of_truth? chip.setting hknown
  have hrun : execute chip.setting rounds (.branch condition thenBranch elseBranch) =
      if b then execute chip.setting rounds thenBranch
        else executeElse chip.setting rounds elseBranch := by
    funext s
    rw [execute, bind_apply (Exec.ofEval_ok (hvalue s.env s.trace)), hholds]
  rw [hrun]
  intro g g' m s hready hfound hindex htracks h hplaced
  rw [Gen.statement, hknown] at h
  cases b with
  | true => exact hfirst g g' m s hready hfound hindex htracks h hplaced
  | false => exact hsecond g g' m s hready hfound hindex htracks h hplaced

/-- **A test and what comes behind it**: the chip goes on behind the test or at the label, as the
    script does. -/
theorem test_performs {condition : Node} (hpure : condition.hasCommand = false) {label : String}
    {target : Nat} {loops : LoopStack} {g₁ : Generator} (hready : g.Ready dst)
    (hindex : m.index = g.code.size) (htracks : Tracks g s m)
    (htested : Gen.jumpUnless condition dst label g = .ok () g₁)
    (hplaced : g₁.code.toList <+: chip.code) (hfound : labelIndex? chip.code label = some target)
    {run other : Exec V Unit}
    (hpasses : ∀ m₁ s₁, m₁.index = g₁.code.size → Tracks g₁ s₁ m₁ →
      Performs chip rounds loops g' m₁ (run s₁))
    (hfails : ∀ m₁ s₁, m₁.index = target → Tracks g₁ s₁ m₁ →
      Performs chip rounds loops g' m₁ (other s₁)) :
    Performs chip rounds loops g' m ((do
      let v ← Exec.ofEval (evaluate chip.setting · condition)
      if chip.setting.holds v then run else other) s) := by
  refine Performs.ofEval htracks (jumpUnless_follows hpure hready.disciplined hready.reserved
    hready.scratch ⟨hindex, htracks.running⟩ htracks.stands htested hplaced hfound) ?_
  intro v m₁ hrunning hdone
  obtain ⟨hplace, hkept⟩ := hdone
  have htest := Gen.jumpUnless_extends hready.disciplined.nodup htested
  have hafter : Tracks g₁ { s with trace := m₁.trace } m₁ :=
    (htracks.scratch hready hrunning hkept).extend htest.known
  -- The value decides for both: which branch is executed, and where the test goes on.
  cases hholds : chip.setting.holds v with
  | true =>
    rw [hholds, if_pos rfl] at hplace
    rw [if_pos rfl]
    exact hpasses m₁ _ hplace hafter
  | false =>
    rw [hholds, if_neg Bool.false_ne_true] at hplace
    rw [if_neg Bool.false_ne_true]
    exact hfails m₁ _ hplace hafter

/-- A choice with two branches: either is left for the label at the end. -/
theorem branchElse_implements (hdistinct : (labelsIn chip.code).Nodup)
    {condition thenBranch : Node} {elseBranch : Option Node}
    (hpure : condition.hasCommand = false) (hunknown : condition.truth? = none)
    (htwo : elseBranch.isSome = true)
    (hfirst : Implements chip rounds dst (Gen.statement thenBranch dst)
      (execute chip.setting rounds thenBranch))
    (hsecond : Implements chip rounds dst (Gen.otherwise elseBranch dst)
      (executeElse chip.setting rounds elseBranch)) :
    Implements chip rounds dst (Gen.statement (.branch condition thenBranch elseBranch) dst)
      (execute chip.setting rounds (.branch condition thenBranch elseBranch)) := by
  intro g g' m s hready hfound hindex htracks h hplaced
  obtain ⟨g₁, g₂, g₃, htested, hmade, hother, rfl⟩ := Gen.branchElse_cases hunknown htwo h
  -- What each part of the code adds, and that all of it is in the code of the chip.
  have hready₀ : ((g.labelled "if_else").labelled "if_end").Ready dst := hready.congr rfl rfl
  have htest := Gen.jumpUnless_extends hready₀.disciplined.nodup htested
  have hready₁ := hready₀.extends htest
  have hthenAdds := Gen.statement_extends thenBranch dst g₁ g₂ htest.nodup hmade
  have hready₂ := hready₁.extends hthenAdds
  have helseAdds := Gen.otherwise_extends dst (fun n _ => Gen.statement_extends n dst) _ g₃
    (hready₂.append _).disciplined.nodup hother
  have hplaced₃ := (g₃.prefix_append_code _).trans hplaced
  have hbetween := helseAdds.code.trans hplaced₃
  have hplaced₂ := (g₂.prefix_append_code _).trans hbetween
  have helsePlace := labelIndex?_of_placed [.jump _] [] hdistinct hbetween
  have hendPlace := labelIndex?_of_placed [] [] hdistinct hplaced
  have hloops₁ : g₁.loops = g.loops := htest.loops
  have hloops₂ : g₂.loops = g.loops := hthenAdds.loops.trans hloops₁
  -- Both branches come to the label at the end, and pass it.
  have hleave : ∀ m₃ : Machine V, m₃.index = g₃.code.size → m₃.status = .running →
      chip.Leads m₃ { m₃ with index := (g₃.append [.label
        ((g.labelled "if_else").nextLabel "if_end")]).code.size } := by
    intro m₃ hat₃ hrunning
    exact (label_passed [] [] hplaced (by rw [hat₃, Generator.append_nil]) hrunning).leads
  rw [execute]
  refine test_performs hpure hready₀ hindex (htracks.extend fun _ _ hbinding => hbinding) htested
    (hthenAdds.code.trans hplaced₂) helsePlace ?_ ?_
  · intro m₁ s₁ hat₁ htracks₁
    have hperformed := hfirst g₁ g₂ m₁ s₁ hready₁ (hloops₁ ▸ hfound) hat₁ htracks₁ hmade hplaced₂
    rw [hloops₁] at hperformed
    refine hperformed.extend helseAdds.known ?_
    intro m₂ hat₂ hrunning
    have hjumped :=
      jump_taken [] _ hbetween ⟨by rw [hat₂, Generator.append_nil], hrunning⟩ hendPlace
    rw [Generator.append_nil] at hjumped
    exact hjumped.leads.trans (hleave { m₂ with index := g₃.code.size } rfl hrunning)
  · intro m₁ s₁ hat₁ htracks₁
    have hpassed := label_passed [.jump _] [] hbetween hat₁ htracks₁.running
    refine Performs.of_leads hpassed.leads ?_
    have htracks₂ := htracks₁.extend hthenAdds.known
    have hperformed := hsecond (g₂.append _) g₃ _ s₁ (hready₂.append _) (hloops₂ ▸ hfound) rfl
      ((htracks₂.move (g₂.append _).code.size).extend fun _ _ hbinding => hbinding) hother hplaced₃
    rw [Generator.append_loops, hloops₂] at hperformed
    exact hperformed.extend (fun _ _ hbinding => hbinding) hleave

/-- A choice with one branch: the test passes over it. -/
theorem branchOnly_implements (hdistinct : (labelsIn chip.code).Nodup) {condition thenBranch : Node}
    (hpure : condition.hasCommand = false) (hunknown : condition.truth? = none)
    (hfirst : Implements chip rounds dst (Gen.statement thenBranch dst)
      (execute chip.setting rounds thenBranch)) :
    Implements chip rounds dst (Gen.statement (.branch condition thenBranch none) dst)
      (execute chip.setting rounds (.branch condition thenBranch none)) := by
  intro g g' m s hready hfound hindex htracks h hplaced
  obtain ⟨g₁, g₂, htested, hmade, rfl⟩ := Gen.branchOnly_cases hunknown h
  have hready₀ : (g.labelled "if").Ready dst := hready.congr rfl rfl
  have htest := Gen.jumpUnless_extends hready₀.disciplined.nodup htested
  have hready₁ := hready₀.extends htest
  have hthenAdds := Gen.statement_extends thenBranch dst g₁ g₂ htest.nodup hmade
  have hplaced₂ := (g₂.prefix_append_code _).trans hplaced
  have hendPlace := labelIndex?_of_placed [] [] hdistinct hplaced
  have hloops₁ : g₁.loops = g.loops := htest.loops
  -- Behind the branch the label is passed, which is where the test jumps to as well.
  have hleave : ∀ m₂ : Machine V, m₂.index = g₂.code.size → m₂.status = .running →
      chip.Leads m₂ { m₂ with
        index := (g₂.append [.label (g.nextLabel "if")]).code.size } := by
    intro m₂ hat₂ hrunning
    exact (label_passed [] [] hplaced (by rw [hat₂, Generator.append_nil]) hrunning).leads
  rw [execute]
  refine test_performs hpure hready₀ hindex (htracks.extend fun _ _ hbinding => hbinding) htested
    (hthenAdds.code.trans hplaced₂) hendPlace ?_ ?_
  · intro m₁ s₁ hat₁ htracks₁
    have hperformed := hfirst g₁ g₂ m₁ s₁ hready₁ (hloops₁ ▸ hfound) hat₁ htracks₁ hmade hplaced₂
    rw [hloops₁] at hperformed
    exact hperformed.extend (fun _ _ hbinding => hbinding) hleave
  · intro m₁ s₁ hat₁ htracks₁
    rw [Generator.append_nil] at hat₁
    rw [executeElse]
    have htracks₂ := htracks₁.extend hthenAdds.known
    exact ⟨_, hleave m₁ hat₁ htracks₁.running, rfl, (htracks₂.append _).move _⟩

/-! ## Loops -/

/-- **Rounds of a loop**: every round that the script takes, the chip takes too, and it passes the
    label at the start before each.  The induction is on the number of rounds that are left. -/
theorem repeatedly_performs {startPlace endPlace : Nat} {labels : LoopLabels} {loops : LoopStack}
    {entered g₂ : Generator} {round : Exec V Unit}
    (hfound : labelIndex? chip.code labels.againTo = some startPlace)
    (hfoundEnd : labelIndex? chip.code labels.leaveTo = some endPlace)
    (henters : ∀ m : Machine V, m.index = startPlace → m.status = .running →
      chip.LeadsIn 1 m { m with index := entered.code.size })
    (hreturns : ∀ m : Machine V, m.index = g₂.code.size → m.status = .running →
      chip.Leads m { m with index := startPlace })
    (hleaves : ∀ m : Machine V, m.index = endPlace → m.status = .running →
      chip.Leads m { m with index := g'.code.size })
    (hknown : ∀ name b, g₂.binding? name = some b → g'.binding? name = some b)
    (hperforms : ∀ m s, m.index = entered.code.size → Tracks g₂ s m →
      Performs chip rounds (LoopStack.push loops labels) g₂ m (round s))
    (n : Nat) (hle : n ≤ rounds) (m : Machine V) (s : Situation V)
    (hindex : m.index = entered.code.size) (htracks : Tracks g₂ s m) :
    Performs chip n loops g' m (Exec.repeatedly n round s) := by
  induction n generalizing m s with
  | zero => exact ⟨m, Chip.Leads.refl m, htracks.running, htracks.trace⟩
  | succ n ih =>
    -- Back at the start, one step leads to the next round.
    have hagain : ∀ (m₁ : Machine V) (s₁ : Situation V), chip.Leads m m₁ → m₁.index = startPlace →
        Tracks g₂ s₁ m₁ → Performs chip (n + 1) loops g' m (Exec.repeatedly n round s₁) := by
      intro m₁ s₁ hleads hstart htracks₁
      have hnext := ih (by omega) { m₁ with index := entered.code.size } s₁ rfl (htracks₁.move _)
      have hstepped := (henters m₁ hstart htracks₁.running).after_leads hleads
      rw [Nat.add_comm]
      exact hnext.of_leadsIn hstepped
    have hperformed := hperforms m s hindex htracks
    rw [Exec.repeatedly]
    cases hrun : round s with
    | ok u s₁ =>
      rw [hrun] at hperformed
      obtain ⟨m₁, hleads, hend, htracks₁⟩ := hperformed
      exact hagain _ s₁ (hleads.trans (hreturns m₁ hend htracks₁.running)) rfl (htracks₁.move _)
    | error exit s₁ =>
      rw [hrun] at hperformed
      cases exit with
      | control kind =>
        obtain ⟨m₁, hleads, htracks₁, label, hgoal, hplace⟩ := hperformed
        cases kind with
        | again =>
          cases hgoal
          have hsame : startPlace = m₁.index := Option.some.inj (hfound.symm.trans hplace)
          exact hagain m₁ s₁ hleads hsame.symm htracks₁
        | leave =>
          cases hgoal
          have hsame : endPlace = m₁.index := Option.some.inj (hfoundEnd.symm.trans hplace)
          exact ⟨_, hleads.trans (hleaves m₁ hsame.symm htracks₁.running), rfl,
            (htracks₁.extend hknown).move _⟩
      | halted => exact hperformed
      | unfinished =>
        obtain ⟨m₁, hleads, hrest⟩ := hperformed
        exact ⟨m₁, hleads.mono hle, hrest⟩
      | fault fault => exact hperformed

/-- A loop performs its rounds, if what is inside of it performs one.  Inside, the test may leave
    the loop by the label at its end. -/
theorem loopWith_implements (hdistinct : (labelsIn chip.code).Nodup) {startStem endStem : String}
    {test : String → Gen Unit} {body : Gen Unit} {names : List String} {run : Exec V Unit}
    (htests : ∀ label, Gen.Extending [] (test label)) (hadds : Gen.Extending names body)
    (hinner : ∀ label (g g₁ g₂ : Generator) (m : Machine V) (s : Situation V), g.Ready dst →
      LoopsFound chip g.loops → LoopStack.target? g.loops .leave = some label →
      m.index = g.code.size → Tracks g s m → test label g = .ok () g₁ → body g₁ = .ok () g₂ →
      g₂.code.toList <+: chip.code → Performs chip rounds g.loops g₂ m (run s)) :
    Implements chip rounds dst (Gen.loopWith startStem endStem test body)
      (Exec.repeatedly rounds (do Exec.forget names; run)) := by
  intro g g' m s hready _ hindex htracks h hplaced
  obtain ⟨g₁, g₂, htested, hgenerated, rfl⟩ := Gen.loopWith_cases h
  -- What the loop adds, and where its labels are.
  have hready₀ : (g.entered startStem endStem).Ready dst := hready.congr rfl rfl
  have hfirst := htests _ _ _ hready₀.disciplined.nodup htested
  have hsecond := hadds _ _ hfirst.nodup hgenerated
  have hinside := hfirst.trans hsecond
  have hplaced₂ := (g₂.prefix_append_code _).trans hplaced
  have hplaced₀ := hinside.code.trans hplaced₂
  have hstartPlace := labelIndex?_of_placed [] [] hdistinct hplaced₀
  have hendPlace := labelIndex?_of_placed [.jump _] [] hdistinct hplaced
  have henters : ∀ m : Machine V, m.index = g.code.size → m.status = .running →
      chip.LeadsIn 1 m { m with index := (g.entered startStem endStem).code.size } := by
    intro m hstart hrunning
    exact label_passed [] [] hplaced₀ hstart hrunning
  have hreturns : ∀ m : Machine V, m.index = g₂.code.size → m.status = .running →
      chip.Leads m { m with index := g.code.size } := by
    intro m hend hrunning
    have hreached : At (g₂.append []) m := ⟨by rw [hend, Generator.append_nil], hrunning⟩
    exact (jump_taken [] _ hplaced hreached hstartPlace).leads
  have hleaves : ∀ m : Machine V,
      m.index = (g₂.append [.jump (g.loopLabels startStem endStem).againTo]).code.size →
      m.status = .running →
      chip.Leads m { m with index := (g₂.closed (g.loopLabels startStem endStem)).code.size } := by
    intro m hlabel hrunning
    exact (label_passed [.jump _] [] hplaced hlabel hrunning).leads
  have hfound : LoopsFound chip (g.entered startStem endStem).loops := by
    intro kind label hgoal
    cases hgoal
    cases kind with
    | leave => exact ⟨_, hendPlace⟩
    | again => exact ⟨_, hstartPlace⟩
  have hperforms : ∀ (m : Machine V) (s : Situation V),
      m.index = (g.entered startStem endStem).code.size → Tracks g₂ s m →
      Performs chip rounds (LoopStack.push g.loops (g.loopLabels startStem endStem)) g₂ m
        ((do Exec.forget names; run) s) := by
    intro m s hstart htracks
    exact hinner _ _ g₁ g₂ m _ hready₀ hfound rfl hstart (htracks.enter hinside.added) htested
      hgenerated hplaced₂
  refine Performs.of_leads (henters m hindex htracks.running).leads ?_
  refine repeatedly_performs hstartPlace hendPlace henters hreturns hleaves
    (fun _ _ hknown => hknown) hperforms rounds (Nat.le_refl _) _ s rfl ?_
  exact (htracks.extend hinside.known).move _

theorem loop_implements (hdistinct : (labelsIn chip.code).Nodup) {body : Node}
    (hinside : Implements chip rounds dst (Gen.statement body dst)
      (execute chip.setting rounds body)) :
    Implements chip rounds dst (Gen.statement (.loop body) dst)
      (execute chip.setting rounds (.loop body)) := by
  rw [Gen.statement, execute]
  refine loopWith_implements hdistinct (fun _ => Gen.pure_extends)
    (Gen.statement_extends body dst) ?_
  intro label g g₁ g₂ m s hready hfound _ hindex htracks htested hgenerated hplaced
  cases htested
  exact hinside g g₂ m s hready hfound hindex htracks hgenerated hplaced

/-- A round begins with the test. -/
theorem executeTest_bind (S : Setting V) (condition : Node) (run : Exec V Unit) :
    (do executeTest S condition; run) = (do
      let v ← Exec.ofEval (evaluate S · condition)
      if S.holds v then run else throw (.control .leave)) := by
  unfold executeTest
  rw [bind_assoc]
  congr 1
  funext v
  split
  · rw [pure_bind]
  · rfl

/-- A loop whose condition is known to fail is no loop at all. -/
theorem whileFalse_implements {condition body : Node} (hknown : condition.truth? = some false) :
    Implements chip rounds dst (Gen.statement (.whileLoop condition body) dst)
      (execute chip.setting rounds (.whileLoop condition body)) := by
  obtain ⟨v, hfails, hvalue⟩ := holds_of_truth? chip.setting hknown
  intro g g' m s _ _ hindex htracks h _
  rw [Gen.statement, hknown] at h
  cases h
  have hforgotten : Tracks g { s with env := s.env.forget body.declared } m :=
    htracks.enter fun _ _ hbinding => .inl hbinding
  -- The first round leaves the loop at its test, whatever the state.
  have hround : (do
      Exec.forget body.declared
      executeTest chip.setting condition
      execute chip.setting rounds body) s =
        .error (.control .leave) { s with env := s.env.forget body.declared } := by
    have hevaluated : Exec.ofEval (evaluate chip.setting · condition)
        { s with env := s.env.forget body.declared } =
          .ok v { s with env := s.env.forget body.declared } := Exec.ofEval_ok (hvalue _ _)
    rw [executeTest_bind]
    refine (bind_apply hevaluated).trans ?_
    rw [hfails]
    rfl
  rw [execute]
  cases rounds with
  | zero => exact ⟨m, Chip.Leads.refl m, htracks.running, htracks.trace⟩
  | succ n =>
    rw [Exec.repeatedly, hround]
    exact ⟨m, .refl m, hindex, hforgotten⟩

/-- A loop whose condition is known to hold has no test. -/
theorem whileTrue_implements (hdistinct : (labelsIn chip.code).Nodup) {condition body : Node}
    (hknown : condition.truth? = some true)
    (hinside : Implements chip rounds dst (Gen.statement body dst)
      (execute chip.setting rounds body)) :
    Implements chip rounds dst (Gen.statement (.whileLoop condition body) dst)
      (execute chip.setting rounds (.whileLoop condition body)) := by
  obtain ⟨v, hholds, hvalue⟩ := holds_of_truth? chip.setting hknown
  rw [Gen.statement, hknown, execute]
  refine loopWith_implements hdistinct (fun _ => Gen.pure_extends)
    (Gen.statement_extends body dst) ?_
  intro label g g₁ g₂ m s hready hfound _ hindex htracks htested hgenerated hplaced
  cases htested
  rw [executeTest_bind, bind_apply (Exec.ofEval_ok (hvalue s.env s.trace)), hholds, if_pos rfl]
  exact hinside g g₂ m s hready hfound hindex htracks hgenerated hplaced

theorem whileLoop_implements (hdistinct : (labelsIn chip.code).Nodup) {condition body : Node}
    (hpure : condition.hasCommand = false)
    (hinside : Implements chip rounds dst (Gen.statement body dst)
      (execute chip.setting rounds body)) :
    Implements chip rounds dst (Gen.statement (.whileLoop condition body) dst)
      (execute chip.setting rounds (.whileLoop condition body)) := by
  cases hknown : condition.truth? with
  | some b =>
    cases b with
    | true => exact whileTrue_implements hdistinct hknown hinside
    | false => exact whileFalse_implements hknown
  | none =>
    rw [Gen.statement, hknown, execute]
    refine loopWith_implements hdistinct (fun _ _ _ => Gen.jumpUnless_extends)
      (Gen.statement_extends body dst) ?_
    intro label g g₁ g₂ m s hready hfound hgoal hindex htracks htested hgenerated hplaced
    obtain ⟨target, hplace⟩ := hfound .leave label hgoal
    have htest := Gen.jumpUnless_extends hready.disciplined.nodup htested
    have hadds := Gen.statement_extends body dst g₁ g₂ htest.nodup hgenerated
    rw [executeTest_bind]
    refine test_performs hpure hready hindex htracks htested (hadds.code.trans hplaced) hplace ?_ ?_
    · intro m₁ s₁ hat₁ htracks₁
      rw [← htest.loops]
      refine hinside g₁ g₂ m₁ s₁ (hready.extends htest) ?_ hat₁ htracks₁ hgenerated hplaced
      rw [htest.loops]
      exact hfound
    · -- The test has failed, and the chip is where a loop control would have led it.
      intro m₁ s₁ hat₁ htracks₁
      rw [← hat₁] at hplace
      exact ⟨m₁, .refl m₁, htracks₁.extend hadds.known, label, hgoal, hplace⟩

theorem branch_implements (hdistinct : (labelsIn chip.code).Nodup) {condition thenBranch : Node}
    {elseBranch : Option Node} (hpure : condition.hasCommand = false)
    (hfirst : Implements chip rounds dst (Gen.statement thenBranch dst)
      (execute chip.setting rounds thenBranch))
    (hsecond : ∀ n ∈ elseBranch.toList, Implements chip rounds dst (Gen.statement n dst)
      (execute chip.setting rounds n)) :
    Implements chip rounds dst (Gen.statement (.branch condition thenBranch elseBranch) dst)
      (execute chip.setting rounds (.branch condition thenBranch elseBranch)) := by
  have hother := otherwise_implements hsecond
  cases hknown : condition.truth? with
  | some b => exact branchKnown_implements hknown hfirst hother
  | none =>
    cases elseBranch with
    | some node => exact branchElse_implements hdistinct hpure hknown rfl hfirst hother
    | none => exact branchOnly_implements hdistinct hpure hknown hfirst

/-! ## The main result -/

/-- **The chip performs every statement**, if commands are statements only and no two labels in the
    code are the same. -/
theorem statement_implements (chip : Chip V) (hdistinct : (labelsIn chip.code).Nodup) (rounds : Nat)
    (dst : Register) (node : Node) (hwellPlaced : node.wellPlaced = true) :
    Implements chip rounds dst (Gen.statement node dst) (execute chip.setting rounds node) := by
  -- By induction on the parts; each case has its own lemma, which asks for the parts it has.
  induction node using Node.partsInduction with
  | step node ih =>
    cases node with
    | block body =>
      rw [Node.wellPlaced, Node.allWellPlaced_eq_true] at hwellPlaced
      rw [Gen.statement, execute]
      exact statements_implements fun n hmem => ih n hmem (hwellPlaced n hmem)
    | branch condition thenBranch elseBranch =>
      simp only [Node.wellPlaced, Bool.and_eq_true, Bool.not_eq_true',
        Node.elseWellPlaced_eq_true] at hwellPlaced
      obtain ⟨⟨hpure, hthenPlaced⟩, helsePlaced⟩ := hwellPlaced
      refine branch_implements hdistinct hpure (ih thenBranch (by simp [Node.parts]) hthenPlaced) ?_
      intro n hmem
      exact ih n (by simp only [Node.parts, List.mem_cons, hmem, or_true]) (helsePlaced n hmem)
    | whileLoop condition body =>
      simp only [Node.wellPlaced, Bool.and_eq_true, Bool.not_eq_true'] at hwellPlaced
      exact whileLoop_implements hdistinct hwellPlaced.1
        (ih body (by simp [Node.parts]) hwellPlaced.2)
    | loop body =>
      rw [Node.wellPlaced] at hwellPlaced
      exact loop_implements hdistinct (ih body (by simp [Node.parts]) hwellPlaced)
    | control kind =>
      rw [Gen.statement]
      exact loopControl_implements kind
    | declare name value =>
      rw [Node.wellPlaced, Bool.not_eq_true'] at hwellPlaced
      rw [Gen.statement, execute]
      exact declaration_implements hwellPlaced
    | assign name index property value =>
      simp only [Node.wellPlaced, Bool.and_eq_true, Bool.not_eq_true',
        Node.indexHasCommand_eq_false] at hwellPlaced
      rw [Gen.statement]
      exact assignment_implements (List.forall_mem_cons.2 hwellPlaced)
    | call name arguments =>
      rw [Node.wellPlaced, Bool.not_eq_true', Node.anyHasCommand_eq_false] at hwellPlaced
      rw [Gen.statement]
      · exact call_implements hwellPlaced
      all_goals simp
    | _ =>
      simp only [Node.wellPlaced, Bool.not_eq_true'] at hwellPlaced
      rw [Gen.statement, execute]
      · exact expression_implements hwellPlaced
      all_goals simp

end Execution
end ChipScript
