import ChipScript.Proofs.Chip.Extension
import ChipScript.Proofs.Chip.Writes

/-!
# Listings

A listing is the code of a script with every instruction next to the statement that it was generated
for and to the loops around that statement.  `Gen.Lists` says which lines a statement has, by one
rule for each way in which statements are made of others.  A statement has code exactly when it has
lines (`statement_lists`, `Lists.generated`), so that what is shown of lines by induction on `Lists`
holds of all code that is generated.
-/

namespace ChipScript

/-! ## Lines -/

/-- A loop around a place: its statement, and the labels of its code. -/
structure Enclosing where
  loop : Node
  labels : LoopLabels

/-- An instruction, the statement that it was generated for, and the loops around that statement,
    the innermost first. -/
structure Line where
  instruction : Instruction
  origin : Node
  loops : List Enclosing

/-- Code that was generated for one statement. -/
def listed (origin : Node) (loops : List Enclosing) (code : List Instruction) : List Line :=
  code.map fun instruction => ⟨instruction, origin, loops⟩

@[simp] theorem map_instruction_listed (origin : Node) (loops : List Enclosing)
    (code : List Instruction) : (listed origin loops code).map (·.instruction) = code := by
  simp [listed, Function.comp_def]

@[simp] theorem length_listed (origin : Node) (loops : List Enclosing) (code : List Instruction) :
    (listed origin loops code).length = code.length := by
  simp [listed]

theorem mem_listed {line : Line} {origin : Node} {loops : List Enclosing}
    {code : List Instruction} :
    line ∈ listed origin loops code ↔
      line.instruction ∈ code ∧ line.origin = origin ∧ line.loops = loops := by
  obtain ⟨instruction, origin', loops'⟩ := line
  simp only [listed, List.mem_map, Line.mk.injEq]
  constructor
  · rintro ⟨i, hmem, rfl, rfl, rfl⟩
    exact ⟨hmem, rfl, rfl⟩
  · rintro ⟨hmem, rfl, rfl⟩
    exact ⟨instruction, hmem, rfl, rfl, rfl⟩

/-! ## Forms of statements -/

namespace Node

/-- What is left of a statement that a known condition decides. -/
def decided? : Node → Option (List Node)
  | branch condition thenBranch elseBranch =>
    condition.truth?.map fun holds => if holds then [thenBranch] else elseBranch.toList
  | whileLoop condition _ => if condition.truth? = some false then some [] else none
  | _ => none

/-- A loop, by the stems of its labels, the condition that is tested before each round, and its
    body.  A condition that is known to hold is not tested. -/
inductive Repeats :
    Node → (startStem endStem : String) → (condition : Option Node) → Node → Prop where
  | loop (body : Node) : Repeats (.loop body) "loop_start" "loop_end" none body
  | always {condition : Node} (body : Node) :
      condition.truth? = some true →
      Repeats (.whileLoop condition body) "while_start" "while_end" none body
  | tested {condition : Node} (body : Node) :
      condition.truth? = none →
      Repeats (.whileLoop condition body) "while_start" "while_end" (some condition) body

end Node

namespace Gen

/-- The test before each round of a loop. -/
def roundTest (condition : Option Node) (dst : Register) (label : String) : Gen Unit :=
  match condition with
  | none => pure ()
  | some condition => jumpUnless condition dst label

theorem statement_of_repeats {node body : Node} {startStem endStem : String}
    {condition : Option Node} (h : node.Repeats startStem endStem condition body) (dst : Register) :
    statement node dst =
      loopWith startStem endStem (roundTest condition dst) (statement body dst) := by
  cases h with
  | loop => rw [statement]; rfl
  | always body htruth => rw [statement, htruth]; rfl
  | tested body htruth => rw [statement, htruth]; rfl

theorem statement_of_decided {node : Node} {rest : List Node} (h : node.decided? = some rest)
    (dst : Register) : statement node dst = statements rest dst := by
  cases node with
  | branch condition thenBranch elseBranch =>
    obtain ⟨holds, htruth, rfl⟩ := Option.map_eq_some_iff.1 h
    rw [statement, htruth]
    cases holds with
    | true => simp [statements]
    | false => cases elseBranch <;> simp [otherwise, statements]
  | whileLoop condition body =>
    simp only [Node.decided?] at h
    split at h
    · next htruth =>
      obtain rfl := Option.some.inj h
      rw [statement, htruth, statements]
    · cases h
  | _ => cases h

/-! ## Lists of lines -/

/-- Which lines a statement has that is generated in one state and leads to another.  The label at
    the start of a loop, its test, the jump back and the label at the end are lines inside it. -/
inductive Lists (dst : Register) :
    List Enclosing → Node → Generator → Generator → List Line → Prop where
  | done {loops : List Enclosing} {g : Generator} : Lists dst loops (.block []) g g []
  | next {loops : List Enclosing} {first : Node} {rest : List Node} {g g₁ g₂ : Generator}
      {lines more : List Line} :
      Lists dst loops first g g₁ lines → Lists dst loops (.block rest) g₁ g₂ more →
      Lists dst loops (.block (first :: rest)) g g₂ (lines ++ more)
  /-- A known condition leaves no code for what it rules out. -/
  | decided {loops : List Enclosing} {node : Node} {rest : List Node} {g g' : Generator}
      {lines : List Line} :
      node.decided? = some rest → Lists dst loops (.block rest) g g' lines →
      Lists dst loops node g g' lines
  | only {loops : List Enclosing} {condition thenBranch : Node} {g g₁ : Generator}
      {test : List Instruction} {lines : List Line} :
      condition.truth? = none →
      jumpUnless condition dst (g.nextLabel "if") (g.labelled "if") =
        .ok () ((g.labelled "if").append test) →
      Lists dst loops thenBranch ((g.labelled "if").append test) g₁ lines →
      Lists dst loops (.branch condition thenBranch none) g (g₁.append [.label (g.nextLabel "if")])
        (listed (.branch condition thenBranch none) loops test ++ lines ++
          listed (.branch condition thenBranch none) loops [.label (g.nextLabel "if")])
  | either {loops : List Enclosing} {condition thenBranch elseBranch : Node} {g g₁ g₂ : Generator}
      {test : List Instruction} {lines more : List Line} :
      condition.truth? = none →
      jumpUnless condition dst (g.nextLabel "if_else") ((g.labelled "if_else").labelled "if_end") =
        .ok () (((g.labelled "if_else").labelled "if_end").append test) →
      Lists dst loops thenBranch (((g.labelled "if_else").labelled "if_end").append test) g₁ lines →
      Lists dst loops elseBranch
        (g₁.append [.jump ((g.labelled "if_else").nextLabel "if_end"),
          .label (g.nextLabel "if_else")]) g₂ more →
      Lists dst loops (.branch condition thenBranch (some elseBranch)) g
        (g₂.append [.label ((g.labelled "if_else").nextLabel "if_end")])
        (listed (.branch condition thenBranch (some elseBranch)) loops test ++ lines ++
          listed (.branch condition thenBranch (some elseBranch)) loops
            [.jump ((g.labelled "if_else").nextLabel "if_end"), .label (g.nextLabel "if_else")] ++
          more ++
          listed (.branch condition thenBranch (some elseBranch)) loops
            [.label ((g.labelled "if_else").nextLabel "if_end")])
  | repeats {loops : List Enclosing} {node body : Node} {startStem endStem : String}
      {condition : Option Node} {g g₁ : Generator} {test : List Instruction} {lines : List Line} :
      node.Repeats startStem endStem condition body →
      roundTest condition dst (g.loopLabels startStem endStem).leaveTo
        (g.entered startStem endStem) = .ok () ((g.entered startStem endStem).append test) →
      Lists dst (⟨node, g.loopLabels startStem endStem⟩ :: loops) body
        ((g.entered startStem endStem).append test) g₁ lines →
      Lists dst loops node g (g₁.closed (g.loopLabels startStem endStem))
        (listed node (⟨node, g.loopLabels startStem endStem⟩ :: loops)
            (.label (g.loopLabels startStem endStem).againTo :: test) ++ lines ++
          listed node (⟨node, g.loopLabels startStem endStem⟩ :: loops)
            [.jump (g.loopLabels startStem endStem).againTo,
              .label (g.loopLabels startStem endStem).leaveTo])
  | simple {loops : List Enclosing} {node : Node} {g g' : Generator} {code : List Instruction} :
      node.isSimple = true → statement node dst g = .ok () g' →
      g'.code.toList = g.code.toList ++ code → Lists dst loops node g g' (listed node loops code)

/-! ## Lines are there when code is -/

variable {dst : Register} {g g' : Generator}

/-- A test is code behind the code that is there. -/
theorem jumpUnless_eq_ok {condition : Node} {label : String} (hnodup : g.registers.reserved.Nodup)
    (h : jumpUnless condition dst label g = .ok () g') : ∃ test, g' = g.append test := by
  rw [jumpUnless_eq] at h
  obtain ⟨operands, -, -, code, -, -, rfl⟩ := withOperands_cases hnodup h
  exact ⟨_, rfl⟩

theorem roundTest_eq_ok {condition : Option Node} {label : String}
    (hnodup : g.registers.reserved.Nodup) (h : roundTest condition dst label g = .ok () g') :
    ∃ test, g' = g.append test := by
  cases condition with
  | none =>
    cases h
    exact ⟨[], by simp⟩
  | some condition => exact jumpUnless_eq_ok hnodup h

/-- Whenever a statement has code it has lines, whatever is said to be around it. -/
abbrev HasLines (dst : Register) (node : Node) : Prop :=
  ∀ (loops : List Enclosing) (g g' : Generator), g.registers.reserved.Nodup →
    statement node dst g = .ok () g' → ∃ lines, Lists dst loops node g g' lines

theorem block_hasLines {nodes : List Node} (hlines : ∀ node ∈ nodes, HasLines dst node) :
    HasLines dst (.block nodes) := by
  induction nodes with
  | nil =>
    intro loops g g' hnodup h
    rw [statement, statements] at h
    cases h
    exact ⟨[], .done⟩
  | cons node rest ih =>
    intro loops g g' hnodup h
    rw [statement, statements, bind_eq_ok] at h
    obtain ⟨⟨⟩, g₁, hfirst, hlater⟩ := h
    obtain ⟨lines, hlisting⟩ := hlines node (List.mem_cons_self ..) loops g g₁ hnodup hfirst
    -- The registers reserved stay without duplicates, so the rest of the block can be listed after
    -- the first statement.
    have hnodup₁ := (statement_extends node dst g g₁ hnodup hfirst).nodup
    rw [← statement] at hlater
    obtain ⟨more, hlisting'⟩ :=
      ih (fun n hn => hlines n (List.mem_cons_of_mem _ hn)) loops g₁ g' hnodup₁ hlater
    exact ⟨lines ++ more, .next hlisting hlisting'⟩

theorem decided_hasLines {node : Node} {rest : List Node} (hdecided : node.decided? = some rest)
    (hlines : ∀ n ∈ rest, HasLines dst n) : HasLines dst node := by
  intro loops g g' hnodup h
  rw [statement_of_decided hdecided, ← statement] at h
  obtain ⟨lines, hlisting⟩ := block_hasLines hlines loops g g' hnodup h
  exact ⟨lines, .decided hdecided hlisting⟩

theorem repeats_hasLines {node body : Node} {startStem endStem : String}
    {condition : Option Node} (hform : node.Repeats startStem endStem condition body)
    (hlines : HasLines dst body) : HasLines dst node := by
  intro loops g g' hnodup h
  rw [statement_of_repeats hform] at h
  obtain ⟨g₁, g₂, htested, hgenerated, rfl⟩ := loopWith_cases h
  obtain ⟨test, rfl⟩ := roundTest_eq_ok (g := g.entered startStem endStem) hnodup htested
  obtain ⟨lines, hlisting⟩ :=
    hlines _ ((g.entered startStem endStem).append test) g₂ hnodup hgenerated
  exact ⟨_, .repeats hform htested hlisting⟩

theorem branch_hasLines {condition thenBranch : Node} {elseBranch : Option Node}
    (hthenLines : HasLines dst thenBranch)
    (helseLines : ∀ n ∈ elseBranch.toList, HasLines dst n) :
    HasLines dst (.branch condition thenBranch elseBranch) := by
  cases htruth : condition.truth? with
  | some holds =>
    -- A condition that is known leaves one of the branches, and there is no test.
    have hdecided : (Node.branch condition thenBranch elseBranch).decided? =
        some (if holds then [thenBranch] else elseBranch.toList) := by
      rw [Node.decided?, htruth, Option.map_some]
    refine decided_hasLines hdecided fun n hmem => ?_
    cases holds with
    | true => exact List.mem_singleton.1 hmem ▸ hthenLines
    | false => exact helseLines n hmem
  | none =>
    intro loops g g' hnodup h
    cases elseBranch with
    | none =>
      obtain ⟨g₁, g₂, htested, hgenerated, rfl⟩ := branchOnly_cases htruth h
      obtain ⟨test, rfl⟩ := jumpUnless_eq_ok (g := g.labelled "if") hnodup htested
      obtain ⟨lines, hlisting⟩ :=
        hthenLines loops ((g.labelled "if").append test) g₂ hnodup hgenerated
      exact ⟨_, .only htruth htested hlisting⟩
    | some other =>
      obtain ⟨g₁, g₂, g₃, htested, hfirst, hsecond, rfl⟩ := branchElse_cases htruth rfl h
      obtain ⟨test, rfl⟩ :=
        jumpUnless_eq_ok (g := (g.labelled "if_else").labelled "if_end") hnodup htested
      have hnodup₁ :
          (((g.labelled "if_else").labelled "if_end").append test).registers.reserved.Nodup :=
        hnodup
      obtain ⟨lines, hlisting⟩ := hthenLines loops _ g₂ hnodup₁ hfirst
      have hnodup₂ : (g₂.append [.jump ((g.labelled "if_else").nextLabel "if_end"),
          .label (g.nextLabel "if_else")]).registers.reserved.Nodup :=
        (statement_extends thenBranch dst _ g₂ hnodup₁ hfirst).nodup
      rw [otherwise] at hsecond
      obtain ⟨more, hlisting'⟩ := helseLines other (by simp) loops _ g₃ hnodup₂ hsecond
      exact ⟨_, .either htruth htested hlisting hlisting'⟩

theorem simple_hasLines {node : Node} (hsimple : node.isSimple = true) : HasLines dst node := by
  intro loops g g' hnodup h
  obtain ⟨code, hadded⟩ := (statement_extends node dst g g' hnodup h).code
  exact ⟨_, .simple hsimple h hadded.symm⟩

/-- **Every statement that has code has lines.** -/
theorem statement_lists (node : Node) (dst : Register) : HasLines dst node := by
  induction node using Node.partsInduction with
  | step node ih =>
    cases node with
    | block body => exact block_hasLines ih
    | branch condition thenBranch elseBranch =>
      exact branch_hasLines (ih thenBranch (by simp [Node.parts]))
        fun n hn => ih n (by simp only [Node.parts, List.mem_cons, hn, or_true])
    | loop body => exact repeats_hasLines (.loop body) (ih body (by simp [Node.parts]))
    | whileLoop condition body =>
      have hbodyLines := ih body (by simp [Node.parts])
      -- A condition whose truth is known leaves no test in the code: the loop repeats without one,
      -- or has no code.
      cases htruth : condition.truth? with
      | none => exact repeats_hasLines (.tested body htruth) hbodyLines
      | some holds =>
        cases holds with
        | true => exact repeats_hasLines (.always body htruth) hbodyLines
        | false => exact decided_hasLines (by rw [Node.decided?, if_pos htruth]) (by simp)
    | _ => exact simple_hasLines rfl

/-! ## Lines tell the code -/

theorem loopWith_apply {startStem endStem : String} {test : String → Gen Unit} {body : Gen Unit}
    {g₁ g₂ : Generator}
    (htested : test (g.loopLabels startStem endStem).leaveTo (g.entered startStem endStem) =
      .ok () g₁)
    (hgenerated : body g₁ = .ok () g₂) :
    loopWith startStem endStem test body g =
      .ok () (g₂.closed (g.loopLabels startStem endStem)) := by
  unfold loopWith
  rw [bind_apply (newLabel_apply startStem), bind_apply (newLabel_apply endStem),
    bind_apply (modify_apply _), bind_apply (emit_apply _ _)]
  refine (bind_apply htested).trans ?_
  rw [bind_apply hgenerated, bind_apply (emit_apply _ _), bind_apply (emit_apply _ _),
    Generator.append_append]
  rfl

/-- **A statement that has lines has code.** -/
theorem Lists.generated {loops : List Enclosing} {node : Node} {lines : List Line}
    (h : Lists dst loops node g g' lines) : statement node dst g = .ok () g' := by
  induction h with
  | done => rfl
  | next _ _ hfirst hlater =>
    rw [statement] at hlater
    rw [statement, statements, bind_apply hfirst]
    exact hlater
  | decided hdecided _ ih =>
    -- What is left of a decided statement has the same code as the statement.
    rw [statement_of_decided hdecided, ← statement]
    exact ih
  | only htruth htested _ ih =>
    rw [statement, htruth]
    simp only [Option.isSome_none, Bool.false_eq_true, if_false]
    rw [bind_apply (newLabel_apply "if"), bind_apply htested, bind_apply ih, emit_apply]
  | either htruth htested _ _ hfirst hsecond =>
    rw [statement, htruth]
    simp only [Option.isSome_some, if_true]
    rw [bind_apply (newLabel_apply "if_else"), bind_apply (newLabel_apply "if_end"),
      bind_apply htested, bind_apply hfirst, bind_apply (emit_apply _ _),
      bind_apply (emit_apply _ _), Generator.append_append, otherwise]
    exact (bind_apply hsecond).trans (emit_apply _ _)
  | repeats hform htested _ ih =>
    rw [statement_of_repeats hform]
    exact loopWith_apply htested ih
  | simple _ hgenerated _ => exact hgenerated

/-- The instructions of the lines are the code that has been added. -/
theorem Lists.code {loops : List Enclosing} {node : Node} {lines : List Line}
    (h : Lists dst loops node g g' lines) :
    g'.code.toList = g.code.toList ++ lines.map (·.instruction) := by
  induction h with
  | done => simp
  | next _ _ hfirst hlater => simp [hlater, hfirst]
  | decided _ _ ih => exact ih
  | only _ _ _ ih => simp [ih, Generator.labelled]
  | either _ _ _ _ hfirst hsecond => simp [hsecond, hfirst, Generator.labelled]
  | repeats _ _ _ ih =>
    simp [Generator.closed, ih, Generator.entered, Generator.inside, Generator.labelled]
  | simple _ _ hadded => simpa using hadded

theorem Lists.extends {loops : List Enclosing} {node : Node} {lines : List Line}
    (h : Lists dst loops node g g' lines) (hnodup : g.registers.reserved.Nodup) :
    Extends node.declared g g' :=
  statement_extends node dst g g' hnodup h.generated

end Gen

/-! ## Scripts -/

/-- The lines of a script, and the state behind its last statement. -/
def Program.Listed (program : Program) (lines : List Line) (final : Generator) : Prop :=
  ∃ scratch, Gen.Lists scratch [] (.block program) (Generator.empty.hold [scratch]) final lines

namespace Program.Listed

variable {program : Program} {lines : List Line} {final : Generator}

/-- **Code of a script is the code of its lines.** -/
theorem exists_of_code {code : List Instruction} (h : program.code = .ok code) :
    ∃ lines final, program.Listed lines final ∧ lines.map (·.instruction) = code := by
  unfold Program.code at h
  split at h
  · next hresult =>
    cases h
    obtain ⟨scratch, g, -, hgenerated, hsame⟩ := Gen.program_cases hresult
    rw [← Gen.statement] at hgenerated
    obtain ⟨lines, hlisting⟩ := Gen.statement_lists (.block program) scratch []
      (Generator.empty.hold [scratch]) g (List.nodup_singleton _) hgenerated
    refine ⟨lines, g, ⟨scratch, hlisting⟩, ?_⟩
    rw [hsame, hlisting.code]
    rfl
  · cases h

/-- No label stands on two lines. -/
theorem labels_nodup (h : program.Listed lines final) :
    (labelsIn (lines.map (·.instruction))).Nodup := by
  obtain ⟨scratch, hlisting⟩ := h
  have hapart := (hlisting.extends (List.nodup_singleton _)).labels []
    (Generator.LabelsApart.empty.congr rfl rfl)
  have hdistinct := hapart.nodup
  rw [List.append_nil, hlisting.code] at hdistinct
  exact hdistinct

end Program.Listed
end ChipScript
