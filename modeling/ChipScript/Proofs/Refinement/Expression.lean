import ChipScript.Proofs.Refinement.Basic

/-!
# Code for expressions follows their evaluation

`expression_follows`: the chip follows the evaluation of an expression with the code for it.  The
value is then in the destination, and no other register that was in use has changed.

A setting is an engine whose values have an order (`Setting.calculator`), so that the code computes
what the expression is worth where every name means what its register holds.  Two things are added.
The chip takes one step for each instruction of the code (`leads_run`).  And the script may have no
meaning for a name that the generator knows: its evaluation then stops on the way that the other one
takes (`evaluate_shortens`), and the chip has been where it stops, since events come one by one.
-/

namespace ChipScript

variable {V α β : Type}

/-! ## The engine of a setting -/

section Settings

variable [LinearOrder V] (S : Setting V)

/-- What a chip computes with. -/
def Setting.engine : Engine V where
  word := S.word
  arithmetic := S.arithmetic
  compare := fun comparison a b => S.truth (comparison.compares a b)
  bitwise := S.bitwise
  select := fun c a b => if S.selects c then a else b
  function := S.function
  world := S.world

/-- The values that expressions have in a setting. -/
def Setting.calculator : Calculator V where
  toEngine := S.engine
  evaluate := ChipScript.evaluate S
  evaluateAll := ChipScript.evaluateAll S
  evaluateAll_nil := fun env => by rw [evaluateAll]
  evaluateAll_cons := fun env node rest => by rw [evaluateAll]
  evaluate_number := fun env text => by rw [ChipScript.evaluate]; rfl
  evaluate_constant := fun env name => by rw [ChipScript.evaluate]; rfl
  evaluate_hash := fun env text => by
    rw [ChipScript.evaluate]
    exact congrArg pure (S.word_checksumText (Text.checksum text)).symm
  evaluate_variable := fun env name value hmeaning => by
    rw [ChipScript.evaluate, evaluateIndex, pure_bind]
    simp only [evaluatePlace, hmeaning]
  evaluate_load := fun env name index property config hmeaning => by
    rw [ChipScript.evaluate]
    cases index <;> simp [evaluateIndex, evaluateAll, evaluatePlace, hmeaning] <;> rfl
  evaluate_not := fun env operand => by
    rw [ChipScript.evaluate]
    simp only [engine, S.word_one, Interpretation.compares_one_less]
  evaluate_arithmetic := fun env operator left right => by rw [ChipScript.evaluate]; rfl
  evaluate_comparison := fun env operator left right => by rw [ChipScript.evaluate]; rfl
  evaluate_connective := fun env operator left right => by
    -- Both sides are made truth values, which the bitwise instruction joins.
    rw [ChipScript.evaluate]
    simp only [engine, S.word_one, Interpretation.compares_one, Interpretation.truth,
      S.bitwise_truth]
  evaluate_choice_known := fun env condition thenValue elseValue x hvalue => by
    rw [ChipScript.evaluate, hvalue]
    simp only [Interpretation.selects_number]
  evaluate_choice := fun env condition thenValue elseValue hvalue => by
    rw [ChipScript.evaluate, hvalue]
    rfl
  evaluate_call := fun env name arguments harity => by
    rw [ChipScript.evaluate]
    simp only [harity, if_true]
    rfl

end Settings

/-! ## Names without a meaning -/

/-- An evaluation goes the way of another one that has a result, or it stops on the way at a name
    that has no meaning. -/
def Shortens (x y : Eval V α) : Prop :=
  ∀ trace a after, y trace = .ok a after → trace <+: after ∧
    (x trace = .ok a after ∨
      ∃ name seen, x trace = .error (.undefined name) seen ∧ trace <+: seen ∧ seen <+: after)

namespace Shortens

theorem pure (a : α) : Shortens (Pure.pure a : Eval V α) (Pure.pure a) := by
  intro trace b after h
  obtain ⟨rfl, rfl⟩ := pure_eq_ok.1 h
  exact ⟨List.prefix_rfl, .inl rfl⟩

theorem throw (x : Eval V α) (fault : Fault) : Shortens x (MonadExcept.throw fault) :=
  fun _ _ _ h => absurd h throw_ne_ok

theorem ofTrace {next : Trace V → α × Trace V} (hgrows : ∀ trace, trace <+: (next trace).2) :
    Shortens (Eval.ofTrace next) (Eval.ofTrace next) := by
  intro trace a after h
  refine ⟨?_, .inl h⟩
  cases h
  exact hgrows trace

/-- Where the first part stops, the whole stops, and what the other evaluation shows after that is
    more. -/
theorem bind {x y : Eval V α} {f k : α → Eval V β} (hfirst : Shortens x y)
    (hsecond : ∀ a, Shortens (f a) (k a)) : Shortens (x >>= f) (y >>= k) := by
  intro trace b after h
  obtain ⟨a, between, hy, hk⟩ := bind_eq_ok.1 h
  obtain ⟨hgrows, hx⟩ := hfirst trace a between hy
  obtain ⟨hgrows', hf⟩ := hsecond a between b after hk
  refine ⟨hgrows.trans hgrows', ?_⟩
  rcases hx with hx | ⟨name, seen, hx, hseen, hbefore⟩
  · rw [bind_apply hx]
    rcases hf with hf | ⟨name, seen, hf, hseen, hbefore⟩
    · exact .inl hf
    · exact .inr ⟨name, seen, hf, hgrows.trans hseen, hbefore⟩
  · exact .inr ⟨name, seen, bind_error hx, hseen, hbefore.trans hgrows'⟩

end Shortens

section Evaluation

variable [LinearOrder V] (S : Setting V) {env env' : Environment V} {name : String}

theorem evaluatePlace_shortens (hname : env name = none ∨ env name = env' name) (slot : Option V)
    (property : Option String) :
    Shortens (evaluatePlace S env name slot property)
      (evaluatePlace S env' name slot property) := by
  have hsame : Shortens (evaluatePlace S env' name slot property)
      (evaluatePlace S env' name slot property) := by
    unfold evaluatePlace
    split
    · exact .throw _ _
    · exact .pure _
    · exact .ofTrace fun _ => List.prefix_append _ _
    · exact .throw _ _
  rcases hname with hnone | hmeaning
  · -- The evaluation stops at once, and nothing has been seen.
    intro trace a after h
    obtain ⟨hgrows, -⟩ := hsame trace a after h
    refine ⟨hgrows, .inr ⟨name, trace, ?_, List.prefix_rfl, hgrows⟩⟩
    simp only [evaluatePlace, hnone]
    rfl
  · have heq :
        evaluatePlace S env name slot property = evaluatePlace S env' name slot property := by
      simp only [evaluatePlace, hmeaning]
    rw [heq]
    exact hsame

theorem evaluateAll_shortens {nodes : List Node}
    (heach : ∀ node ∈ nodes, Shortens (evaluate S env node) (evaluate S env' node)) :
    Shortens (evaluateAll S env nodes) (evaluateAll S env' nodes) := by
  induction nodes with
  | nil =>
    rw [evaluateAll, evaluateAll]
    exact .pure _
  | cons node rest ih =>
    rw [evaluateAll, evaluateAll]
    refine (heach node (by simp)).bind fun _ => Shortens.bind (ih ?_) fun _ => .pure _
    exact fun n hmem => heach n (List.mem_cons_of_mem _ hmem)

/-- **Where names have lost their meaning, an evaluation stops on its way at most.** -/
theorem evaluate_shortens {node : Node}
    (hnames : ∀ name, node.reads name = true → env name = none ∨ env name = env' name) :
    Shortens (evaluate S env node) (evaluate S env' node) := by
  -- By induction on the parts, whose names are names of the whole.
  induction node using Node.partsInduction with
  | step node ih =>
    have hparts : node.isStatement = false →
        ∀ part ∈ node.parts, Shortens (evaluate S env part) (evaluate S env' part) :=
      fun hvalue part hmem => ih part hmem fun name hread =>
        hnames name (Node.reads_of_part hvalue hmem hread)
    cases node with
    | number text | constant text | hash text =>
      rw [evaluate, evaluate]
      exact .pure _
    | read name index property =>
      rw [evaluate, evaluate]
      refine Shortens.bind ?_ fun slot =>
        evaluatePlace_shortens S (hnames name (by simp [Node.reads])) slot property
      cases index with
      | none =>
        rw [evaluateIndex, evaluateIndex]
        exact .pure _
      | some index =>
        rw [evaluateIndex, evaluateIndex]
        exact (hparts rfl index (by simp [Node.parts])).bind fun _ => .pure _
    | not operand =>
      rw [evaluate, evaluate]
      exact (hparts rfl operand (by simp [Node.parts])).bind fun _ => .pure _
    | arithmetic operator left right | comparison operator left right
    | connective operator left right =>
      rw [evaluate, evaluate]
      exact (hparts rfl left (by simp [Node.parts])).bind fun _ =>
        (hparts rfl right (by simp [Node.parts])).bind fun _ => .pure _
    | choice condition thenValue elseValue =>
      have hthen := hparts rfl thenValue (by simp [Node.parts])
      have helse := hparts rfl elseValue (by simp [Node.parts])
      rw [evaluate, evaluate]
      split
      · split
        · exact hthen
        · exact helse
      · exact (hparts rfl condition (by simp [Node.parts])).bind fun _ =>
          hthen.bind fun _ => helse.bind fun _ => .pure _
    | call name arguments =>
      rw [evaluate, evaluate]
      refine (evaluateAll_shortens S (hparts rfl)).bind fun values => ?_
      split
      · refine .ofTrace fun trace => ?_
        unfold Setting.call
        split
        · exact List.prefix_append _ _
        · exact List.prefix_rfl
      · exact .throw _ _
    | device config | block body | declare name value | assign name index property value | loop body
      | whileLoop condition body | branch condition thenBranch elseBranch | control kind =>
      rw [evaluate, evaluate]
      · exact .throw _ _
      all_goals simp

end Evaluation

/-! ## Steps -/

section Execution

variable [LinearOrder V] {chip : Chip V} {env : Environment V} {g g' : Generator} {dst : Register}
  {m m' : Machine V} {node : Node}

/-- The chip is about to run the code that is added next. -/
structure At (g : Generator) (m : Machine V) : Prop where
  index : m.index = g.code.size
  running : m.status = .running

theorem fetch {code later : List Instruction} {instruction : Instruction}
    (hplaced : (g.append (code ++ instruction :: later)).code.toList <+: chip.code)
    (hreached : At (g.append code) m) : chip.code[m.index]? = some instruction := by
  obtain ⟨rest, hsplit⟩ := hplaced
  have hindex : m.index = (g.code.toList ++ code).length := by
    rw [hreached.index, ← Generator.append_code_toList, Array.length_toList]
  rw [← hsplit, hindex]
  simp

/-- An instruction that goes on is followed by the next one. -/
theorem leads_next (code later : List Instruction) {instruction : Instruction}
    (hplaced : (g.append (code ++ instruction :: later)).code.toList <+: chip.code)
    (hreached : At (g.append code) m) (hperform : chip.perform m instruction = m')
    (hindex : m'.index = m.index + 1) (hstatus : m'.status = m.status) :
    chip.Leads m m' ∧ At (g.append (code ++ [instruction])) m' := by
  have hstep := Chip.leads_perform hreached.running (fetch hplaced hreached)
  rw [hperform] at hstep
  refine ⟨hstep, ?_, hstatus.trans hreached.running⟩
  rw [hindex, hreached.index]
  simp
  omega

theorem read_eq (chip : Chip V) (m : Machine V) :
    chip.read m = chip.setting.engine.read m.contents := by
  funext operand
  cases operand <;> rfl

@[simp] theorem read_one (chip : Chip V) (m : Machine V) :
    chip.read m Gen.one = chip.setting.number 1.0 :=
  chip.setting.toInterpretation.word_one

/-- Instructions without jumps have their effect, and go on. -/
theorem perform_of_straight {instruction : Instruction} (hstraight : instruction.isStraight = true)
    (hgoesOn : .hcf ≠ instruction) :
    chip.perform m instruction = m.proceed (chip.setting.engine.effect m.contents instruction) := by
  cases instruction with
  | hcf => exact absurd rfl hgoesOn
  | label name | jump target | branch comparison left right target
    | branchRelative comparison left right offset => cases hstraight
  | _ =>
    simp only [Chip.perform, read_eq]
    rfl

/-- **Code without jumps is run to its end.** -/
theorem leads_run (before code : List Instruction)
    (hstraight : ∀ instruction ∈ code, instruction.isStraight = true) (hgoesOn : .hcf ∉ code)
    (hplaced : (g.append (before ++ code)).code.toList <+: chip.code)
    (hreached : At (g.append before) m) :
    ∃ m', chip.Leads m m' ∧ At (g.append (before ++ code)) m' ∧
      m'.contents = chip.setting.engine.run m.contents code := by
  -- By induction on the code, of which more and more is behind the chip.
  induction code generalizing before m with
  | nil => exact ⟨m, .refl m, by simpa using hreached, rfl⟩
  | cons instruction rest ih =>
    rw [List.mem_cons, not_or] at hgoesOn
    obtain ⟨hstep, hnext⟩ := leads_next before rest hplaced hreached
      (perform_of_straight (hstraight instruction (List.mem_cons_self ..)) hgoesOn.1) rfl rfl
    rw [List.append_cons] at hplaced ⊢
    obtain ⟨m', hlater, hend, hcontents⟩ := ih _
      (fun i hmem => hstraight i (List.mem_cons_of_mem _ hmem)) hgoesOn.2 hplaced hnext
    exact ⟨m', hstep.trans hlater, hend, hcontents⟩

/-- **The chip follows an evaluation whose result its code computes**, and also one that stops on
    the way. -/
theorem follows_of_run {x y : Eval V α} {a : α} {code : List Instruction} (hshortens : Shortens x y)
    (hstraight : ∀ instruction ∈ code, instruction.isStraight = true) (hgoesOn : .hcf ∉ code)
    (hplaced : (g.append code).code.toList <+: chip.code) (hreached : At g m)
    (hvalue : y m.trace = .ok a (chip.setting.engine.run m.contents code).trace) :
    Follows chip m (fun b m' => b = a ∧ At (g.append code) m' ∧
      m'.contents = chip.setting.engine.run m.contents code) (x m.trace) := by
  have hreached₀ : At (g.append []) m := by simpa using hreached
  obtain ⟨-, hx | ⟨name, seen, hx, hseen, hbefore⟩⟩ := hshortens m.trace a _ hvalue
  · obtain ⟨m', hleads, hend, hcontents⟩ := leads_run [] code hstraight hgoesOn hplaced hreached₀
    rw [hx]
    exact ⟨m', hleads, hend.running, congrArg Contents.trace hcontents, rfl, hend, hcontents⟩
  · -- What has been seen where the evaluation stops is what some beginning of the code shows.
    obtain ⟨first, ⟨rest, rfl⟩, htrace⟩ := chip.setting.engine.exists_prefix_of_trace hseen hbefore
    have hplaced₁ : (g.append first).code.toList <+: chip.code := by
      rw [← Generator.append_append] at hplaced
      exact ((g.append first).prefix_append_code rest).trans hplaced
    obtain ⟨m', hleads, -, hcontents⟩ := leads_run [] first
      (fun i hmem => hstraight i (List.mem_append_left _ hmem))
      (fun hmem => hgoesOn (List.mem_append_left _ hmem)) hplaced₁ hreached₀
    rw [hx]
    exact ⟨⟨name, rfl⟩, m', hleads, (congrArg Contents.trace hcontents).trans htrace⟩

/-! ## Expressions -/

/-- What the code of an expression has done: the value is in its destination, and the other
    registers that were in use are as they were. -/
structure Computed (g g' : Generator) (dst : Register) (m : Machine V) (v : V) (m' : Machine V) :
    Prop where
  index : m'.index = g'.code.size
  value : m'.registers dst = v
  kept : KeepsOthers g dst m.contents m'.contents

/-- Names that have a meaning mean what their registers hold, so that an evaluation goes the way of
    the one in which all of them have theirs. -/
theorem evaluate_shortens_of_stands
    (hstands : ∀ name, node.reads name = true → Stands g env m.registers name) :
    Shortens (evaluate chip.setting env node)
      (evaluate chip.setting (g.environment m.registers) node) :=
  evaluate_shortens chip.setting fun name hread => (hstands name hread).meaning

/-- Code that computes a value is code with which the chip follows its evaluation. -/
theorem follows_of_valued {code : List Instruction}
    (h : chip.setting.calculator.Valued (g.environment m.registers) g dst node m.contents code)
    (hstraight : ∀ instruction ∈ code, instruction.isStraight = true) (hreached : At g m)
    (hstands : ∀ name, node.reads name = true → Stands g env m.registers name)
    (hplaced : (g.append code).code.toList <+: chip.code) :
    Follows chip m (Computed g (g.append code) dst m) (evaluate chip.setting env node m.trace) := by
  refine (follows_of_run (evaluate_shortens_of_stands hstands) hstraight h.goesOn hplaced hreached
    h.value).mono ?_
  intro v m' _ hdone
  obtain ⟨rfl, hend, hcontents⟩ := hdone
  refine ⟨hend.index, congrArg (·.registers dst) hcontents, ?_⟩
  rw [hcontents]
  exact h.kept

/-- **Code for an expression follows its evaluation**, if no command stands where a value is
    expected. -/
theorem expression_follows (hpure : node.hasCommand = false) (haccounted : g.Accounted)
    (hreserved : dst ∈ g.registers.reserved) (hsafe : g.Safe dst node) (hreached : At g m)
    (hstands : ∀ name, node.reads name = true → Stands g env m.registers name)
    (h : Gen.expression node dst g = .ok () g') (hplaced : g'.code.toList <+: chip.code) :
    Follows chip m (Computed g g' dst m) (evaluate chip.setting env node m.trace) := by
  obtain ⟨code, hstraight, rfl⟩ := Gen.expression_eq_ok haccounted.nodup h
  have hvalued := Calculator.expression_values chip.setting.calculator (g.environment m.registers)
    node hpure dst g code m.contents haccounted hreserved hsafe (fun _ _ => rfl) h
  exact follows_of_valued hvalued hstraight hreached hstands hplaced

/-- **The chip comes to the instructions that use the operands**, and the operands have their
    values. -/
theorem withOperands_follows {nodes : List Node} {use : List Operand → List Instruction}
    (hpure : ∀ node ∈ nodes, node.hasCommand = false) (haccounted : g.Accounted)
    (hreserved : dst ∈ g.registers.reserved) (hsafe : g.SafeOperands dst nodes)
    (hreached : At g m)
    (hstands : ∀ node ∈ nodes, ∀ name, node.reads name = true → Stands g env m.registers name)
    (h : Gen.withOperands dst nodes use g = .ok () g') (hplaced : g'.code.toList <+: chip.code) :
    ∃ operands code, g' = g.append (code ++ use operands) ∧ operands.length = nodes.length ∧
      Follows chip m (fun vs m' => At (g.append code) m' ∧ operands.map (chip.read m') = vs ∧
        KeepsOthers g dst m.contents m'.contents) (evaluateAll chip.setting env nodes m.trace) := by
  obtain ⟨operands, code, rfl, hlength, hstraight, hgathered, hkept, hgoesOn⟩ :=
    Calculator.withOperands_values (E := chip.setting.calculator) (s := m.contents)
      (fun node hmem => Calculator.expression_values _ (g.environment m.registers) node
        (hpure node hmem)) haccounted hreserved hsafe (fun _ _ _ _ => rfl) h
  refine ⟨operands, code, rfl, hlength, ?_⟩
  have hplaced₁ : (g.append code).code.toList <+: chip.code := by
    rw [← Generator.append_append] at hplaced
    exact ((g.append code).prefix_append_code _).trans hplaced
  -- The evaluation in the environment of the generator is the one of the script, or a part of it.
  have hshortens : Shortens (evaluateAll chip.setting env nodes)
      (evaluateAll chip.setting (g.environment m.registers) nodes) :=
    evaluateAll_shortens chip.setting fun node hmem =>
      evaluate_shortens_of_stands (hstands node hmem)
  refine (follows_of_run hshortens hstraight hgoesOn hplaced₁ hreached hgathered).mono ?_
  intro vs m' _ hdone
  obtain ⟨rfl, hend, hcontents⟩ := hdone
  refine ⟨hend, ?_, ?_⟩
  · rw [read_eq, hcontents]
    rfl
  · rw [hcontents]
    exact hkept

end Execution

end ChipScript
