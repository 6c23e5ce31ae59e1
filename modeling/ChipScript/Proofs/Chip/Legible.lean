import ChipScript.Proofs.Node.Legible

/-!
# Legible code

Code generation copies texts from a tree into instructions, takes registers from the sixteen of the
chip and makes labels of its own.  So the code of a legible tree is legible
(`Program.legible_code`): its registers are on the chip, its immediate operands cannot be taken for
registers, and its labels, logic types and pins are words.

The state of generation holds the same texts on the way, in the table of devices and in the labels
of the loops around.  `Gen.Yields` says that a step keeps them legible, and it is proved of one step
after another, in the order in which the generator is built up.
-/

namespace ChipScript

/-! ## Instructions -/

/-- An operand that is read back as itself. -/
def Operand.Legible : Operand → Prop
  | register r => r ∈ Register.all
  | immediate text => ImmediateText text

/-- Devices whose pin is a word. -/
def DeviceTarget.Legible : DeviceTarget → Prop
  | pin name => WordText name.toList
  | _ => True

/-- An instruction whose operands are read back as themselves, whose texts are words, and which
    calls a function with as many arguments as it takes. -/
def Instruction.Legible : Instruction → Prop
  | label name | jump name => WordText name.toList
  | move dst source => dst ∈ Register.all ∧ source.Legible
  | arithmetic _ dst left right | compare _ dst left right | bitwise _ dst left right =>
    dst ∈ Register.all ∧ left.Legible ∧ right.Legible
  | select dst condition thenValue elseValue =>
    dst ∈ Register.all ∧ condition.Legible ∧ thenValue.Legible ∧ elseValue.Legible
  | branch _ left right target => left.Legible ∧ right.Legible ∧ WordText target.toList
  | branchRelative _ left right _ => left.Legible ∧ right.Legible
  | load dst device slot property =>
    dst ∈ Register.all ∧ device.Legible ∧ (∀ operand ∈ slot, operand.Legible) ∧
      WordText property.toList
  | store device slot property value =>
    device.Legible ∧ (∀ operand ∈ slot, operand.Legible) ∧ WordText property.toList ∧
      value.Legible
  | sleep duration => duration.Legible
  | yield | hcf => True
  | function name dst arguments =>
    dst ∈ Register.all ∧ Vocabulary.functionArity? name = some arguments.length ∧
      ∀ operand ∈ arguments, operand.Legible

/-- The number one, which values are tested against. -/
theorem Operand.legible_one : Gen.one.Legible :=
  SignedText.immediate (.inl (.whole (by simp) (by simp)))

/-- What instructions say of a device is its pin, if it has one. -/
theorem DeviceConfig.Legible.target {config : DeviceConfig} (h : config.Legible) :
    config.target.Legible := by
  unfold DeviceConfig.target
  split
  · next pin haddress => exact h pin haddress
  · trivial
  · trivial

/-! ## Steps -/

/-- What a state of generation holds is legible. -/
structure Generator.Legible (g : Generator) : Prop where
  code : ∀ instruction ∈ g.code.toList, instruction.Legible
  registers : ∀ entry ∈ g.variableTable, entry.2 ∈ Register.all
  devices : ∀ entry ∈ g.deviceTable, entry.2.Legible
  loops : ∀ labels ∈ g.loops, WordText labels.leaveTo.toList ∧ WordText labels.againTo.toList

/-- At the start nothing has been generated that could be illegible. -/
theorem Generator.Legible.empty : Generator.empty.Legible :=
  ⟨nofun, nofun, nofun, nofun⟩

namespace Gen

/-- A step that succeeds leaves a legible state legible, and its result is as it should be. -/
def Yields {α : Type} (step : Gen α) (result : α → Prop) : Prop :=
  ∀ ⦃g : Generator⦄ ⦃a : α⦄ ⦃g' : Generator⦄, g.Legible → step g = .ok a g' →
    g'.Legible ∧ result a

/-- A step that succeeds leaves a legible state legible. -/
abbrev Keeps {α : Type} (step : Gen α) : Prop := Yields step fun _ => True

section Rules

variable {α β : Type} {p : α → Prop} {q : β → Prop}

/-- **Steps of a sequence keep a state legible in turn.** The second one may rely on the result of
    the first. -/
theorem Yields.bind {x : Gen α} {f : α → Gen β} (hfirst : Yields x p)
    (hsecond : ∀ a, p a → Yields (f a) q) : Yields (x >>= f) q := by
  intro g b g' hlegible h
  obtain ⟨a, g₁, hbefore, hafter⟩ := bind_eq_ok.1 h
  obtain ⟨hlegible₁, hfound⟩ := hfirst hlegible hbefore
  exact hsecond a hfound hlegible₁ hafter

/-- One step after another, of which the first has no result to speak of. -/
theorem Yields.seq {x : Gen α} {f : α → Gen β} (hfirst : Keeps x) (hsecond : ∀ a, Yields (f a) q) :
    Yields (x >>= f) q :=
  hfirst.bind fun a _ => hsecond a

theorem Yields.of_pure {a : α} (h : p a) : Yields (pure a) p := by
  intro g b g' hlegible hdone
  obtain ⟨rfl, rfl⟩ := pure_eq_ok.1 hdone
  exact ⟨hlegible, h⟩

theorem Yields.of_throw {e : CodeError} : Yields (throw e : Gen α) p := by
  intro g a g' _ h
  exact absurd h throw_ne_ok

theorem get_yields : Yields get Generator.Legible := by
  intro g a g' hlegible h
  cases h
  exact ⟨hlegible, hlegible⟩

theorem modify_keeps {f : Generator → Generator} (h : ∀ g, g.Legible → (f g).Legible) :
    Keeps (modify f : Gen Unit) := by
  intro g a g' hlegible hdone
  cases hdone
  exact ⟨h g hlegible, trivial⟩

/-- A question to the generator leaves it as it is. -/
theorem query_yields {ask : Generator → Except CodeError α}
    (h : ∀ g a, g.Legible → ask g = .ok a → p a) : Yields (query ask) p := by
  intro g a g' hlegible hasked
  obtain ⟨hanswer, rfl⟩ := query_eq_ok.1 hasked
  exact ⟨hlegible, h _ a hlegible hanswer⟩

theorem emit_keeps {instruction : Instruction} (h : instruction.Legible) :
    Keeps (emit instruction) := by
  refine modify_keeps fun g hlegible => { hlegible with code := ?_ }
  rw [Array.toList_push, List.forall_mem_append]
  exact ⟨hlegible.code, by simpa using h⟩

theorem emitAll_keeps {code : List Instruction} (h : ∀ instruction ∈ code, instruction.Legible) :
    Keeps (emitAll code) := by
  induction code with
  | nil =>
    rw [emitAll]
    exact .of_pure trivial
  | cons instruction rest ih =>
    rw [emitAll]
    obtain ⟨hfirst, hothers⟩ := List.forall_mem_cons.1 h
    exact (emit_keeps hfirst).seq fun _ => ih hothers

/-- Other registers may be in use. -/
theorem Generator.Legible.reserving {g : Generator} (h : g.Legible) (registers : RegisterFile) :
    Generator.Legible { g with registers } :=
  ⟨h.code, h.registers, h.devices, h.loops⟩

/-- A register that is taken from candidates on the chip is on the chip. -/
theorem reserveBy_yields {candidates : List Register} (honChip : candidates ⊆ Register.all) :
    Yields (reserveBy (·.take candidates)) (· ∈ Register.all) := by
  intro g r g' hlegible h
  unfold reserveBy RegisterFile.take at h
  -- With no candidate left the step fails, and there is nothing to show.
  cases hfound : candidates.find? g.registers.isFree with
  | none => simp [hfound] at h
  | some free =>
    simp only [hfound, EStateM.Result.ok.injEq] at h
    obtain ⟨rfl, rfl⟩ := h
    exact ⟨Generator.Legible.reserving hlegible _, honChip (List.mem_of_find?_eq_some hfound)⟩

theorem reserve_yields : Yields reserve (· ∈ Register.all) :=
  reserveBy_yields (List.Subset.refl _)

theorem reserveHigh_yields : Yields reserveHigh (· ∈ Register.all) :=
  reserveBy_yields fun _ hmem => List.mem_reverse.1 hmem

/-- A register that is given back leaves no trace in texts. -/
theorem release_keeps (r : Register) : Keeps (release r) := by
  intro g a g' hlegible h
  unfold release at h
  split at h
  · cases h
    exact ⟨Generator.Legible.reserving hlegible _, trivial⟩
  · cases h

theorem releaseAll_keeps (registers : List Register) : Keeps (releaseAll registers) := by
  induction registers with
  | nil =>
    rw [releaseAll]
    exact .of_pure trivial
  | cons r rest ih =>
    rw [releaseAll]
    exact (release_keeps r).seq fun _ => ih

/-- A label is a word if its stem is made of letters. -/
theorem newLabel_yields {stem : String} (hletters : stem.toList.all Text.isWord = true) :
    Yields (newLabel stem) fun name => WordText name.toList := by
  intro g name g' hlegible h
  cases h
  refine ⟨⟨hlegible.code, hlegible.registers, hlegible.devices, hlegible.loops⟩, ?_⟩
  have hdigits := LabelCounts.numberText_ne_nil (g.labels.count stem + 1)
  -- The digits behind the stem are word characters, and there is one at least, whatever the stem.
  show WordText (stem ++ LabelCounts.numberText _).toList
  rw [String.toList_append]
  refine .of_all (fun hnone => hdigits (List.append_eq_nil_iff.1 hnone).2) ?_
  rw [List.all_append, hletters, Bool.true_and, List.all_eq_true]
  exact fun c hmem => isDigit_isWord (LabelCounts.isDigit_of_mem_numberText hmem)

/-- Behind the check the two numbers are known to be the same. -/
theorem checkArity_yields (name : String) (expected found : Nat) :
    Yields (checkArity name expected found) fun _ => expected = found := by
  unfold checkArity
  split
  · next hsame => exact .of_pure hsame
  · exact .of_throw

end Rules

/-! ## Values -/

/-- What stands for a value without code: the text of a literal, or the register of a variable. -/
theorem operand?_yields {node : Node} (hlegible : node.Legible) :
    Yields (query (·.operand? node)) fun found => ∀ operand ∈ found, operand.Legible := by
  refine query_yields fun g found hknown hanswer operand hmem => ?_
  obtain rfl := Option.mem_def.1 hmem
  have hroot := hlegible.root
  -- Only literals and names are values without code.
  cases node with
  | number text | constant text =>
    cases hanswer
    exact hroot
  | hash text =>
    cases hanswer
    exact (signedText_toString _).immediate
  | read name index property =>
    obtain ⟨r, hbinding, -, -, rfl⟩ := Generator.operand?_read hanswer
    exact hknown.registers _ (Generator.mem_variableTable hbinding)
  | _ => cases hanswer

/-- The code of a node is legible, wherever on the chip it is computed into. -/
abbrev ComputesLegibly (node : Node) : Prop :=
  ∀ dst ∈ Register.all, Keeps (expression node dst)

theorem materialize_yields {node : Node} (hlegible : node.Legible)
    (hcomputes : ComputesLegibly node) {dst : Register} (honChip : dst ∈ Register.all) :
    Yields (materialize node (expression node) dst) Operand.Legible := by
  refine (operand?_yields hlegible).bind fun found hknown => ?_
  cases found with
  | some operand => exact .of_pure (hknown operand rfl)
  | none => exact (hcomputes dst honChip).seq fun _ => .of_pure honChip

/-- An operand is found, computed into the destination, or computed into a register of its own. -/
theorem operandIn_yields {node : Node} (hlegible : node.Legible) (hcomputes : ComputesLegibly node)
    {scope : Scope} (honChip : scope.dst ∈ Register.all) :
    Yields (operandIn scope node (expression node)) fun result =>
      result.1.Legible ∧ result.2.dst ∈ Register.all := by
  refine (operand?_yields hlegible).bind fun found hknown => ?_
  cases found with
  | some operand => exact .of_pure ⟨hknown operand rfl, honChip⟩
  | none =>
    -- The destination is used once, and operands behind it need registers of their own.
    cases scope.taken with
    | true =>
      refine reserve_yields.bind fun r hfree => ?_
      exact (hcomputes r hfree).seq fun _ => .of_pure ⟨hfree, honChip⟩
    | false => exact (hcomputes scope.dst honChip).seq fun _ => .of_pure ⟨honChip, honChip⟩

/-- Operands are gathered one after another, and there is one for each value. -/
theorem operandsIn_yields {nodes : List Node} (hlegible : ∀ node ∈ nodes, node.Legible)
    (hcomputes : ∀ node ∈ nodes, ComputesLegibly node) {scope : Scope}
    (honChip : scope.dst ∈ Register.all) :
    Yields (operandsIn scope nodes) fun result =>
      (∀ operand ∈ result.1, operand.Legible) ∧ result.1.length = nodes.length := by
  -- The scope changes from one operand to the next, but its destination stays on the chip.
  induction nodes generalizing scope with
  | nil =>
    rw [operandsIn]
    exact .of_pure ⟨by simp, rfl⟩
  | cons node rest ih =>
    obtain ⟨hlegibleFirst, hlegibleRest⟩ := List.forall_mem_cons.1 hlegible
    obtain ⟨hcomputesFirst, hcomputesRest⟩ := List.forall_mem_cons.1 hcomputes
    rw [operandsIn]
    refine (operandIn_yields hlegibleFirst hcomputesFirst honChip).bind fun first hfound => ?_
    refine (ih hlegibleRest hcomputesRest hfound.2).bind fun others hrest => ?_
    exact .of_pure ⟨List.forall_mem_cons.2 ⟨hfound.1, hrest.1⟩, by simp [hrest.2]⟩

/-- **Code that uses operands is legible** if it is so for all legible operands of their number. -/
theorem withOperands_keeps {nodes : List Node} {dst : Register}
    {use : List Operand → List Instruction} (hlegible : ∀ node ∈ nodes, node.Legible)
    (hcomputes : ∀ node ∈ nodes, ComputesLegibly node) (honChip : dst ∈ Register.all)
    (huses : ∀ operands : List Operand, (∀ operand ∈ operands, operand.Legible) →
      operands.length = nodes.length → ∀ instruction ∈ use operands, instruction.Legible) :
    Keeps (withOperands dst nodes use) := by
  refine (operandsIn_yields hlegible hcomputes honChip).bind fun result hgathered => ?_
  exact (emitAll_keeps (huses _ hgathered.1 hgathered.2)).seq fun _ => releaseAll_keeps _

theorem binaryCode_legible {code : Operand → Operand → List Instruction} {operands : List Operand}
    (hlegible : ∀ operand ∈ operands, operand.Legible)
    (h : ∀ a b, a.Legible → b.Legible → ∀ instruction ∈ code a b, instruction.Legible) :
    ∀ instruction ∈ binaryCode code operands, instruction.Legible := by
  unfold binaryCode
  split
  · next a b => exact h a b (hlegible a (by simp)) (hlegible b (by simp))
  · simp

theorem unaryCode_legible {code : Operand → List Instruction} {operands : List Operand}
    (hlegible : ∀ operand ∈ operands, operand.Legible)
    (h : ∀ a, a.Legible → ∀ instruction ∈ code a, instruction.Legible) :
    ∀ instruction ∈ unaryCode code operands, instruction.Legible := by
  unfold unaryCode
  split
  · next a => exact h a (hlegible a (by simp))
  · simp

theorem selectCode_legible {dst : Register} {operands : List Operand} (honChip : dst ∈ Register.all)
    (hlegible : ∀ operand ∈ operands, operand.Legible) :
    ∀ instruction ∈ selectCode dst operands, instruction.Legible := by
  unfold selectCode
  split
  · simpa [Instruction.Legible, honChip] using hlegible
  · simp

/-- A device that a name stands for is in the table of devices. -/
theorem device?_legible {g : Generator} (hlegible : g.Legible) {name : String}
    {config : DeviceConfig} (hknown : g.device? name = some config) : config.Legible :=
  hlegible.devices (name, config) (mem_of_lookup hknown)

/-- A name that is read stands for a device, whose logic type is loaded, or for a variable. -/
theorem read_keeps {name : String} {index : Option Node} {property : Option String}
    (hlegible : (Node.read name index property).Legible)
    (hcomputes : ∀ node ∈ index.toList, ComputesLegibly node) :
    ComputesLegibly (.read name index property) := by
  intro dst honChip g a g' hbefore h
  cases hknown : g.device? name with
  | some config =>
    -- The pin comes from the table of devices, and the logic type from the tree.
    cases property with
    | none =>
      rw [expression, bind_apply get_apply] at h
      simp only [hknown] at h
      cases h
    | some logicType =>
      rw [expression_load index logicType dst hknown] at h
      refine withOperands_keeps (fun part hmem => hlegible.part hmem) hcomputes honChip ?_ hbefore h
      intro operands hgathered _
      have hslot : ∀ operand ∈ operands.head?, operand.Legible := fun operand hmem =>
        hgathered operand (List.mem_of_head? hmem)
      simpa [loadCode] using
        ⟨honChip, (device?_legible hbefore hknown).target, hslot, hlegible.root logicType rfl⟩
  | none =>
    -- A variable is read by a move from its register, which the table of variables has on the chip.
    rw [expression, bind_apply get_apply] at h
    simp only [hknown] at h
    rw [bind_eq_ok] at h
    obtain ⟨r, g₁, hasked, h⟩ := h
    obtain ⟨hfound, rfl⟩ := query_eq_ok.1 hasked
    obtain ⟨hregister, -, -⟩ := Generator.registerOf_eq_ok hfound
    have hbinding := Generator.binding?_eq_register.2 ⟨hknown, hregister⟩
    have hmove : (Instruction.move dst (.register r)).Legible :=
      And.intro honChip (hbefore.registers _ (Generator.mem_variableTable hbinding))
    exact emit_keeps hmove hbefore h

/-- A call is a command or a function. -/
theorem call_keeps {name : String} {arguments : List Node}
    (hlegible : ∀ node ∈ arguments, node.Legible)
    (hcomputes : ∀ node ∈ arguments, ComputesLegibly node) :
    ComputesLegibly (.call name arguments) := by
  intro dst honChip
  -- Names of commands are looked up first, as the generator does it.
  cases hcommand : Vocabulary.Command.ofName? name with
  | some kind =>
    rw [expression_command arguments dst hcommand]
    refine (checkArity_yields _ _ _).bind fun _ _ => ?_
    refine withOperands_keeps hlegible hcomputes honChip fun operands hgathered _ => ?_
    cases kind with
    | sleep => simpa [commandCode, Instruction.Legible] using hgathered
    | yield | hcf => simp [commandCode, Instruction.Legible]
  | none =>
    cases hfunction : Vocabulary.functionArity? name with
    | some arity =>
      rw [expression_function arguments dst hcommand hfunction]
      refine (checkArity_yields _ _ _).bind fun _ hsame => ?_
      refine withOperands_keeps hlegible hcomputes honChip fun operands hgathered hlength => ?_
      -- The arity that was checked is that of the operands, one for each argument.
      rw [hsame, ← hlength] at hfunction
      simpa using ⟨honChip, hfunction, hgathered⟩
    | none =>
      simp only [expression, hcommand, hfunction]
      exact .of_throw

/-- **The code of a legible node is legible.** -/
theorem expression_keeps {node : Node} (hlegible : node.Legible) : ComputesLegibly node := by
  induction hlegible with
  | @intro node hroot hwithin ih =>
    have hlegible : node.Legible := .intro hroot hwithin
    intro dst honChip
    cases node with
    | arithmetic operator left right =>
      rw [expression_arithmetic]
      refine withOperands_keeps hwithin ih honChip fun operands hgathered _ => ?_
      exact binaryCode_legible hgathered fun a b ha hb => by simpa using ⟨honChip, ha, hb⟩
    | comparison operator left right =>
      rw [expression_comparison]
      refine withOperands_keeps hwithin ih honChip fun operands hgathered _ => ?_
      exact binaryCode_legible hgathered fun a b ha hb => by simpa using ⟨honChip, ha, hb⟩
    | connective operator left right =>
      have hfirst : left ∈ (Node.connective operator left right).parts := by simp [Node.parts]
      have hsecond : right ∈ (Node.connective operator left right).parts := by simp [Node.parts]
      rw [expression]
      -- Each side is compared with one where it stands, and the results are joined.
      refine (materialize_yields (hwithin left hfirst) (ih left hfirst) honChip).bind fun a ha => ?_
      refine reserve_yields.bind fun r hfree => ?_
      refine (materialize_yields (hwithin right hsecond) (ih right hsecond) hfree).bind
        fun b hb => ?_
      refine Yields.seq (emit_keeps ?_) fun _ => Yields.seq (emit_keeps ?_) fun _ =>
        Yields.seq (emit_keeps ?_) fun _ => release_keeps r
      · exact And.intro honChip ⟨ha, Operand.legible_one⟩
      · exact And.intro hfree ⟨hb, Operand.legible_one⟩
      · exact And.intro honChip ⟨honChip, hfree⟩
    | not operand =>
      rw [expression_not]
      refine withOperands_keeps hwithin ih honChip fun operands hgathered _ => ?_
      exact unaryCode_legible hgathered fun a ha => by
        simpa using ⟨honChip, ha, Operand.legible_one⟩
    | choice condition thenValue elseValue =>
      -- If the condition is known then one of the values is computed alone.
      cases hknown : condition.value? with
      | some value =>
        rw [expression_choice_known _ _ _ hknown]
        split
        · exact ih thenValue (by simp [Node.parts]) dst honChip
        · exact ih elseValue (by simp [Node.parts]) dst honChip
      | none =>
        rw [expression_choice _ _ _ hknown]
        exact withOperands_keeps hwithin ih honChip fun operands hgathered _ =>
          selectCode_legible honChip hgathered
    | read name index property => exact read_keeps hlegible ih dst honChip
    | call name arguments => exact call_keeps hwithin ih dst honChip
    | number text | constant text =>
      rw [expression]
      -- A literal is moved to the destination with its own text.
      exact emit_keeps (And.intro honChip hroot)
    | hash text =>
      rw [expression]
      exact emit_keeps (And.intro honChip (signedText_toString _).immediate)
    | device _ | block _ | declare _ _ | assign _ _ _ _ | loop _ | whileLoop _ _ | branch _ _ _
      | control _ =>
      rw [expression]
      · -- What is no value is refused.
        exact .of_throw
      all_goals simp

/-! ## Statements -/

variable {dst : Register}

/-- The code that tests operands and jumps, whatever the form of the condition. -/
theorem testCode_legible {label : String} (hword : WordText label.toList) (condition : Node)
    {operands : List Operand} (hlegible : ∀ operand ∈ operands, operand.Legible) :
    ∀ instruction ∈ testCode label condition operands, instruction.Legible := by
  have hone := Operand.legible_one
  cases condition with
  | comparison operator left right =>
    exact binaryCode_legible hlegible fun a b ha hb => by simpa using ⟨ha, hb, hword⟩
  | connective operator left right =>
    cases operator with
    | and =>
      refine binaryCode_legible hlegible fun a b ha hb => ?_
      simpa using ⟨⟨ha, hone, hword⟩, hb, hone, hword⟩
    | or =>
      refine binaryCode_legible hlegible fun a b ha hb => ?_
      simpa using ⟨⟨ha, hone⟩, ⟨hb, hone⟩, hword⟩
  | _ => exact unaryCode_legible hlegible fun a ha => by simpa using ⟨ha, hone, hword⟩

/-- A condition is tested by jumps to a label that is a word. -/
theorem jumpUnless_keeps {condition : Node} (hlegible : condition.Legible)
    (honChip : dst ∈ Register.all) {label : String} (hword : WordText label.toList) :
    Keeps (jumpUnless condition dst label) := by
  -- What is tested are the parts of a condition, or the condition itself.
  have htests : ∀ node ∈ tested condition, node.Legible := by
    intro node hmem
    cases condition with
    | comparison _ _ _ | connective _ _ _ | not _ => exact hlegible.part hmem
    | _ => exact List.mem_singleton.1 hmem ▸ hlegible
  rw [jumpUnless_eq]
  exact withOperands_keeps htests (fun node hmem => expression_keeps (htests node hmem)) honChip
    fun operands hgathered _ => testCode_legible hword condition hgathered

theorem computeInto_keeps {value : Node} (hlegible : value.Legible) {r : Register}
    (honChip : r ∈ Register.all) : Keeps (computeInto r value) := by
  refine (operand?_yields hlegible).bind fun found hknown => ?_
  cases found with
  | some operand => exact emit_keeps (And.intro honChip (hknown operand rfl))
  | none => exact expression_keeps hlegible r honChip

/-- A declaration adds to the table of devices or to that of variables, and both stay legible. -/
theorem declaration_keeps (name : String) {value : Node} (hlegible : value.Legible) :
    Keeps (declaration name value) := by
  have hchecked : Keeps (checkNew name) := by
    refine get_yields.bind fun g _ => ?_
    split
    · exact .of_throw
    · exact .of_pure trivial
  refine hchecked.seq fun _ => ?_
  -- A device is only noted, and a variable has a register from then on.
  split
  · next config =>
    refine modify_keeps fun g hbefore => { hbefore with devices := ?_ }
    exact List.forall_mem_cons.2 ⟨hlegible.root, hbefore.devices⟩
  · refine reserveHigh_yields.bind fun r honChip => ?_
    refine (computeInto_keeps hlegible honChip).seq fun _ => ?_
    refine modify_keeps fun g hbefore => { hbefore with registers := ?_ }
    exact List.forall_mem_cons.2 ⟨honChip, hbefore.registers⟩

theorem deviceStore_keeps {config : DeviceConfig} (htarget : config.Legible) {name : String}
    {index : Option Node} {property : Option String} {value : Node}
    (hlegible : (Node.assign name index property value).Legible) (honChip : dst ∈ Register.all) :
    Keeps (deviceStore config name index property value dst) := by
  intro g a g' hbefore h
  obtain ⟨logicType, rfl, hgathered⟩ := deviceStore_cases h
  have hparts : ∀ node ∈ value :: index.toList, node.Legible := fun node hmem => hlegible.part hmem
  refine withOperands_keeps hparts (fun node hmem => expression_keeps (hparts node hmem)) honChip ?_
    hbefore hgathered
  intro operands hfound _
  cases operands with
  | nil => simp [storeCode]
  | cons a slot =>
    obtain ⟨ha, hothers⟩ := List.forall_mem_cons.1 hfound
    have hslot : ∀ operand ∈ slot.head?, operand.Legible := fun operand hmem =>
      hothers operand (List.mem_of_head? hmem)
    simpa [storeCode] using ⟨htarget.target, hslot, hlegible.root logicType rfl, ha⟩

theorem variableStore_keeps (name : String) (index : Option Node) (property : Option String)
    {value : Node} (hlegible : value.Legible) :
    Keeps (variableStore name index property value) := by
  have hregister : Yields (query (·.registerOf name index property)) (· ∈ Register.all) := by
    refine query_yields fun g r hbefore hfound => ?_
    obtain ⟨hknown, -, -⟩ := Generator.registerOf_eq_ok hfound
    exact hbefore.registers (name, r) (mem_of_lookup hknown)
  refine hregister.bind fun r honChip => (operand?_yields hlegible).bind fun found hknown => ?_
  cases found with
  | some operand => exact emit_keeps (And.intro honChip (hknown operand rfl))
  | none =>
    -- The value is computed aside or in place, and either register is on the chip.
    refine get_yields.bind fun g _ => ?_
    split
    · refine reserve_yields.bind fun t hfree => ?_
      refine (expression_keeps hlegible t hfree).seq fun _ => ?_
      exact Yields.seq (emit_keeps (And.intro honChip hfree)) fun _ => release_keeps t
    · exact expression_keeps hlegible r honChip

theorem assignment_keeps {name : String} {index : Option Node} {property : Option String}
    {value : Node} (hlegible : (Node.assign name index property value).Legible)
    (honChip : dst ∈ Register.all) : Keeps (assignment name index property value dst) := by
  refine get_yields.bind fun g hbefore => ?_
  split
  · next config hknown => exact deviceStore_keeps (device?_legible hbefore hknown) hlegible honChip
  · exact variableStore_keeps name index property (hlegible.part (by simp [Node.parts]))

theorem loopControl_keeps (kind : LoopControl) : Keeps (loopControl kind) := by
  refine get_yields.bind fun g hbefore => ?_
  cases hloops : g.loops with
  | nil => exact .of_throw
  | cons labels rest =>
    obtain ⟨hleaveTo, hagainTo⟩ := hbefore.loops labels (by simp [hloops])
    cases kind with
    | leave => exact emit_keeps hleaveTo
    | again => exact emit_keeps hagainTo

/-- A loop makes two labels, and holds them while its body is generated. -/
theorem loopWith_keeps {startStem endStem : String} {test : String → Gen Unit} {body : Gen Unit}
    (hstartLetters : startStem.toList.all Text.isWord = true)
    (hendLetters : endStem.toList.all Text.isWord = true)
    (htests : ∀ label, WordText label.toList → Keeps (test label)) (hruns : Keeps body) :
    Keeps (loopWith startStem endStem test body) := by
  -- Both labels are made before the loop is entered, so that controls in the body can name them.
  refine (newLabel_yields hstartLetters).bind fun start hstartWord => ?_
  refine (newLabel_yields hendLetters).bind fun finish hendWord => ?_
  refine Yields.seq (modify_keeps fun g hbefore => { hbefore with loops := ?_ }) fun _ => ?_
  · exact List.forall_mem_cons.2 ⟨⟨hendWord, hstartWord⟩, hbefore.loops⟩
  refine Yields.seq (emit_keeps hstartWord) fun _ => (htests finish hendWord).seq fun _ => ?_
  refine hruns.seq fun _ => Yields.seq (emit_keeps hstartWord) fun _ => ?_
  refine Yields.seq (emit_keeps hendWord) fun _ => ?_
  refine modify_keeps fun g hbefore => { hbefore with loops := ?_ }
  -- Behind the loop the labels of the loops around are left.
  exact fun labels hmem => hbefore.loops labels (List.mem_of_mem_tail hmem)

theorem statements_keeps {nodes : List Node} (hkeeps : ∀ node ∈ nodes, Keeps (statement node dst)) :
    Keeps (statements nodes dst) := by
  induction nodes with
  | nil =>
    rw [statements]
    exact .of_pure trivial
  | cons node rest ih =>
    rw [statements]
    obtain ⟨hfirst, hothers⟩ := List.forall_mem_cons.1 hkeeps
    exact hfirst.seq fun _ => ih hothers

theorem otherwise_keeps {elseBranch : Option Node}
    (hkeeps : ∀ node ∈ elseBranch.toList, Keeps (statement node dst)) :
    Keeps (otherwise elseBranch dst) := by
  cases elseBranch with
  | none =>
    rw [otherwise]
    exact .of_pure trivial
  | some node =>
    rw [otherwise]
    exact hkeeps node (by simp)

/-- **The code of a legible statement is legible.** -/
theorem statement_keeps {node : Node} (hlegible : node.Legible) (honChip : dst ∈ Register.all) :
    Keeps (statement node dst) := by
  induction hlegible with
  | @intro node hroot hwithin ih =>
    have hlegible : node.Legible := .intro hroot hwithin
    cases node with
    | block body =>
      rw [statement]
      exact statements_keeps ih
    | branch condition thenBranch elseBranch =>
      have hfirst : Keeps (statement thenBranch dst) := ih thenBranch (by simp [Node.parts])
      have hsecond : Keeps (otherwise elseBranch dst) := otherwise_keeps fun node hmem =>
        ih node (List.mem_cons_of_mem _ (List.mem_cons_of_mem _ hmem))
      have htest : ∀ label : String, WordText label.toList →
          Keeps (jumpUnless condition dst label) :=
        fun label hword => jumpUnless_keeps (hwithin condition (by simp [Node.parts])) honChip hword
      rw [statement]
      -- A condition that is known leaves one branch, which is generated without labels.
      split
      · exact hfirst
      · exact hsecond
      · split
        · -- Labels are words, and apart from them a choice emits only the code of its parts and
          -- jumps.
          refine (newLabel_yields (by decide)).bind fun other hotherWord => ?_
          refine (newLabel_yields (by decide)).bind fun finish hendWord => ?_
          refine (htest other hotherWord).seq fun _ => hfirst.seq fun _ => ?_
          refine Yields.seq (emit_keeps hendWord) fun _ => ?_
          refine Yields.seq (emit_keeps hotherWord) fun _ => ?_
          exact hsecond.seq fun _ => emit_keeps hendWord
        · refine (newLabel_yields (by decide)).bind fun finish hendWord => ?_
          exact (htest finish hendWord).seq fun _ => hfirst.seq fun _ => emit_keeps hendWord
    | whileLoop condition body =>
      have hruns : Keeps (statement body dst) := ih body (by simp [Node.parts])
      rw [statement]
      split
      · exact .of_pure trivial
      · exact loopWith_keeps (by decide) (by decide) (fun _ _ => .of_pure trivial) hruns
      · exact loopWith_keeps (by decide) (by decide) (fun label hword => jumpUnless_keeps
          (hwithin condition (by simp [Node.parts])) honChip hword) hruns
    | loop body =>
      rw [statement]
      exact loopWith_keeps (by decide) (by decide) (fun _ _ => .of_pure trivial)
        (ih body (by simp [Node.parts]))
    | control kind =>
      rw [statement]
      exact loopControl_keeps kind
    | declare name value =>
      rw [statement]
      exact declaration_keeps name (hwithin value (by simp [Node.parts]))
    | assign name index property value =>
      rw [statement]
      exact assignment_keeps hlegible honChip
    | _ =>
      -- Any other node is a value that is computed for its effects.
      rw [statement]
      · exact expression_keeps hlegible dst honChip
      all_goals simp

/-- Around the statements a script takes one register and gives it back, and checks that all are
    free. -/
theorem program_keeps {script : Program} (hlegible : ∀ node ∈ script, node.Legible) :
    Keeps (program script) := by
  refine reserve_yields.bind fun scratch honChip => ?_
  refine (statements_keeps fun node hmem => statement_keeps (hlegible node hmem) honChip).seq
    fun _ => ?_
  refine (release_keeps scratch).seq fun _ => Yields.seq ?_ fun _ => ?_
  · refine get_yields.bind fun g _ => Yields.seq (modify_keeps fun g hbefore => ?_) fun _ =>
      releaseAll_keeps _
    exact { hbefore with registers := by simp }
  · refine get_yields.bind fun g _ => ?_
    show Keeps (if g.registers.inUse ≠ 0 then _ else _)
    -- A register that was not given back is an error, and leaves no code.
    split
    · exact .of_throw
    · exact .of_pure trivial

end Gen

/-- **The code of a legible script is legible.** -/
theorem Program.legible_code {program : Program} (hlegible : ∀ node ∈ program, node.Legible)
    {code : List Instruction} (hgenerated : program.code = .ok code) :
    ∀ instruction ∈ code, instruction.Legible := by
  unfold Program.code at hgenerated
  split at hgenerated
  · next g hrun =>
    cases hgenerated
    exact (Gen.program_keeps hlegible .empty hrun).1.code
  · cases hgenerated

end ChipScript
