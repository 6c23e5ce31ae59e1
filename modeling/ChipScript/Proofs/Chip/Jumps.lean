import ChipScript.Proofs.Chip.Listing

/-!
# Where jumps go

Every jump and every branch of generated code goes to a label that stands once in the code.  It
stands further down, or it is the label at the start of a loop around the jump; a loop control goes
to the labels of the innermost loop around it, and the relative branches of a disjunction pass over
the jump of their own test.

The lines of a loop stand together, between the labels at its start and at its end (`LoopLines`), so
that lines tell by their place which loops they are in (`Lists.enclosed`).

Main result: `jumps_are_closed`.
-/

namespace ChipScript

/-! ## Places in lists of lines -/

section Places

variable {α : Type} {xs ys : List α} {i : Nat} {a : α}

theorem getElem?_append_some (h : (xs ++ ys)[i]? = some a) :
    xs[i]? = some a ∨ ∃ k, i = xs.length + k ∧ ys[k]? = some a := by
  by_cases hinside : i < xs.length
  · rw [List.getElem?_append_left hinside] at h
    exact .inl h
  · rw [List.getElem?_append_right (by omega)] at h
    exact .inr ⟨i - xs.length, by omega, h⟩

theorem getElem?_append_of_left (h : xs[i]? = some a) (ys : List α) :
    (xs ++ ys)[i]? = some a := by
  rw [List.getElem?_append_left (List.getElem?_eq_some_iff.1 h).1]
  exact h

theorem getElem?_append_of_right (h : ys[i]? = some a) (xs : List α) :
    (xs ++ ys)[xs.length + i]? = some a := by
  rw [List.getElem?_append_right (by omega), Nat.add_sub_cancel_left]
  exact h

end Places

/-- The label that an instruction may go to. -/
def Instruction.target? : Instruction → Option String
  | jump target => some target
  | branch _ _ _ target => some target
  | _ => none

theorem Instruction.target?_of_straight {instruction : Instruction}
    (h : instruction.isStraight = true) : instruction.target? = none := by
  cases instruction <;> first | rfl | cases h

/-- The condition that a statement tests. -/
def Node.condition? : Node → Option Node
  | branch condition _ _ => some condition
  | whileLoop condition _ => some condition
  | _ => none

/-- A statement inside another one, and the loops between the two, the innermost first. -/
inductive Node.Around : (outside : Node) → (loops : List Node) → (inside : Node) → Prop where
  | self {node : Node} : Around node [] node
  | block {body : List Node} {node inside : Node} {loops : List Node} :
      node ∈ body → Around node loops inside → Around (.block body) loops inside
  | thenBranch {condition thenBranch inside : Node} {elseBranch : Option Node} {loops : List Node} :
      Around thenBranch loops inside → Around (.branch condition thenBranch elseBranch) loops inside
  | elseBranch {condition thenBranch elseBranch inside : Node} {loops : List Node} :
      Around elseBranch loops inside →
      Around (.branch condition thenBranch (some elseBranch)) loops inside
  | loop {body inside : Node} {loops : List Node} :
      Around body loops inside → Around (.loop body) (loops ++ [.loop body]) inside
  | whileLoop {condition body inside : Node} {loops : List Node} :
      Around body loops inside →
      Around (.whileLoop condition body) (loops ++ [.whileLoop condition body]) inside

/-! ## The lines of a loop -/

/-- The lines of a loop stand together.  The first is the label at its start and the last the label
    at its end. -/
structure LoopLines (lines : List Line) (e : Enclosing) (outer : List Enclosing)
    (first last : Nat) : Prop where
  start : lines[first]? = some ⟨.label e.labels.againTo, e.loop, e :: outer⟩
  finish : lines[last]? = some ⟨.label e.labels.leaveTo, e.loop, e :: outer⟩
  inside : ∀ i, first ≤ i → i ≤ last →
    ∃ line inner, lines[i]? = some line ∧ line.loops = inner ++ e :: outer

namespace LoopLines

variable {lines : List Line} {e : Enclosing} {outer : List Enclosing} {first last : Nat}

theorem append_right (h : LoopLines lines e outer first last) (more : List Line) :
    LoopLines (lines ++ more) e outer first last where
  start := getElem?_append_of_left h.start more
  finish := getElem?_append_of_left h.finish more
  inside := by
    intro i habove hbelow
    obtain ⟨line, inner, hfound, hloops⟩ := h.inside i habove hbelow
    exact ⟨line, inner, getElem?_append_of_left hfound more, hloops⟩

theorem append_left (h : LoopLines lines e outer first last) (before : List Line) :
    LoopLines (before ++ lines) e outer (before.length + first) (before.length + last) where
  start := getElem?_append_of_right h.start before
  finish := getElem?_append_of_right h.finish before
  inside := by
    intro i habove hbelow
    obtain ⟨line, inner, hfound, hloops⟩ := h.inside (i - before.length) (by omega) (by omega)
    refine ⟨line, inner, ?_, hloops⟩
    have hshifted := getElem?_append_of_right hfound before
    rwa [show before.length + (i - before.length) = i by omega] at hshifted

end LoopLines

/-- Every line stands among the lines of each loop around it, as far as these loops have begun in
    the lines. -/
def Enclosed (lines : List Line) (loops : List Enclosing) : Prop :=
  ∀ (i : Nat) (line : Line), lines[i]? = some line → ∃ inner, line.loops = inner ++ loops ∧
    ∀ innermost e outer, inner = innermost ++ e :: outer →
      ∃ first last, first ≤ i ∧ i ≤ last ∧ LoopLines lines e (outer ++ loops) first last

namespace Enclosed

variable {lines more : List Line} {loops : List Enclosing}

theorem of_listed {origin : Node} {code : List Instruction} :
    Enclosed (listed origin loops code) loops := by
  intro i line hfound
  obtain ⟨-, -, hsame⟩ := mem_listed.1 (List.mem_of_getElem? hfound)
  exact ⟨[], hsame, by simp⟩

theorem append (h : Enclosed lines loops) (h' : Enclosed more loops) :
    Enclosed (lines ++ more) loops := by
  intro i line hfound
  rcases getElem?_append_some hfound with hbefore | ⟨k, rfl, hbehind⟩
  · obtain ⟨inner, hsplit, hwithin⟩ := h i line hbefore
    refine ⟨inner, hsplit, fun innermost e outer hparts => ?_⟩
    obtain ⟨first, last, habove, hbelow, hloop⟩ := hwithin innermost e outer hparts
    exact ⟨first, last, habove, hbelow, hloop.append_right more⟩
  · obtain ⟨inner, hsplit, hwithin⟩ := h' k line hbehind
    refine ⟨inner, hsplit, fun innermost e outer hparts => ?_⟩
    obtain ⟨first, last, habove, hbelow, hloop⟩ := hwithin innermost e outer hparts
    exact ⟨_, _, by omega, by omega, hloop.append_left lines⟩

/-- Lines from the label at the start of a loop to the label at its end are those of the loop. -/
theorem of_loop {e : Enclosing} {last : Nat} (h : Enclosed lines (e :: loops))
    (hstart : lines[0]? = some ⟨.label e.labels.againTo, e.loop, e :: loops⟩)
    (hfinish : lines[last]? = some ⟨.label e.labels.leaveTo, e.loop, e :: loops⟩)
    (hlength : lines.length = last + 1) : Enclosed lines loops := by
  intro i line hfound
  have hbound : i < lines.length := (List.getElem?_eq_some_iff.1 hfound).1
  obtain ⟨inner, hsplit, hwithin⟩ := h i line hfound
  refine ⟨inner ++ [e], by simp [hsplit], fun innermost e' outer hparts => ?_⟩
  rcases List.eq_nil_or_concat outer with rfl | ⟨outer, x, rfl⟩
  · -- The loop itself: all lines are its lines.
    obtain ⟨-, hsame⟩ := List.append_inj' hparts rfl
    obtain rfl := List.head_eq_of_cons_eq hsame
    refine ⟨0, last, by omega, by omega, hstart, hfinish, ?_⟩
    intro j _ hbelow
    obtain ⟨line', hfound'⟩ : ∃ line', lines[j]? = some line' :=
      ⟨_, List.getElem?_eq_getElem (by omega)⟩
    obtain ⟨inner', hsplit', -⟩ := h j line' hfound'
    exact ⟨line', inner', hfound', hsplit'⟩
  · -- A loop inside it.
    rw [List.concat_eq_append, ← List.cons_append, ← List.append_assoc] at hparts
    obtain ⟨hinside, hsame⟩ := List.append_inj' hparts rfl
    obtain rfl := List.head_eq_of_cons_eq hsame
    obtain ⟨first, last, habove, hbelow, hloop⟩ := hwithin innermost e' outer hinside
    exact ⟨first, last, habove, hbelow, by simpa using hloop⟩

end Enclosed

/-! ## Directions -/

/-- Every jump and every branch of the lines goes to a label further down, to the start of a loop
    around it, or to a label that is still to be placed. -/
def Directed (lines : List Line) (pending : List String) : Prop :=
  ∀ (i : Nat) (line : Line) (target : String),
    lines[i]? = some line → line.instruction.target? = some target →
    (∃ (j : Nat) (below : Line), i < j ∧ lines[j]? = some below ∧
      below.instruction = .label target) ∨
    (∃ e ∈ line.loops, target = e.labels.againTo) ∨ target ∈ pending

namespace Directed

variable {lines more : List Line} {pending later : List String}

theorem of_listed {origin : Node} {loops : List Enclosing} {code : List Instruction}
    (h : ∀ instruction ∈ code, ∀ target, instruction.target? = some target →
      (∃ e ∈ loops, target = e.labels.againTo) ∨ target ∈ pending) :
    Directed (listed origin loops code) pending := by
  intro i line target hfound hgoes
  obtain ⟨hmem, -, hsame⟩ := mem_listed.1 (List.mem_of_getElem? hfound)
  rw [hsame]
  exact .inr (h _ hmem target hgoes)

theorem mono (h : Directed lines pending) (hsubset : pending ⊆ later) : Directed lines later :=
  fun i line target hfound hgoes =>
    (h i line target hfound hgoes).imp_right (.imp_right fun hmem => hsubset hmem)

/-- Labels that are to be placed behind some lines are placed in the next ones, or remain to be
    placed. -/
theorem append (pending : List String) (h : Directed lines pending)
    (hplaced : ∀ target ∈ pending, target ∈ later ∨ .label target ∈ more.map (·.instruction))
    (h' : Directed more later) : Directed (lines ++ more) later := by
  intro i line target hfound hgoes
  rcases getElem?_append_some hfound with hbefore | ⟨k, rfl, hbehind⟩
  · have hbound : i < lines.length := (List.getElem?_eq_some_iff.1 hbefore).1
    rcases h i line target hbefore hgoes with ⟨j, below, hdown, hj, hlabel⟩ | hagain | hopen
    · exact .inl ⟨j, below, hdown, getElem?_append_of_left hj more, hlabel⟩
    · exact .inr (.inl hagain)
    · rcases hplaced target hopen with hstill | hhere
      · exact .inr (.inr hstill)
      · obtain ⟨below, hmem, hlabel⟩ := List.mem_map.1 hhere
        obtain ⟨j, hj⟩ := List.getElem?_of_mem hmem
        exact .inl ⟨_, below, by omega, getElem?_append_of_right hj lines, hlabel⟩
  · rcases h' k line target hbehind hgoes with ⟨j, below, hdown, hj, hlabel⟩ | hrest
    · exact .inl ⟨_, below, by omega, getElem?_append_of_right hj lines, hlabel⟩
    · exact .inr hrest

/-- One label is placed in the next lines, and the others remain to be placed. -/
theorem placed_cons {label : String} (hhere : .label label ∈ more.map (·.instruction)) :
    ∀ target ∈ label :: later, target ∈ later ∨ .label target ∈ more.map (·.instruction) := by
  intro target hmem
  rcases List.mem_cons.1 hmem with rfl | hstill
  · exact .inr hhere
  · exact .inl hstill

end Directed

/-- The labels behind some lines that loop controls among them may go to. -/
def exits (loops : List Enclosing) : List String :=
  (loops.head?.map (·.labels.leaveTo)).toList

/-! ## Relative branches -/

/-- The test of a disjunction stands at an index: either part that holds passes over the jump. -/
def DisjunctionAt (lines : List Line) (line : Line) (k : Nat) : Prop :=
  ∃ left right a b label, line.origin.condition? = some (.connective .or left right) ∧
    listed line.origin line.loops [.branchRelative .greaterEqual a Gen.one 3,
      .branchRelative .greaterEqual b Gen.one 2, .jump label] <+: lines.drop k

/-- Every relative branch of the lines belongs to the test of a disjunction and goes to what stands
    behind this test, if as many lines follow as there is room for. -/
def Skips (lines : List Line) (room : Nat) : Prop :=
  ∀ (i : Nat) (line : Line) (comparison : Comparison) (a b : Operand) (offset : Int),
    lines[i]? = some line → line.instruction = .branchRelative comparison a b offset →
    ∃ k : Nat, DisjunctionAt lines line k ∧ (i = k ∨ i = k + 1) ∧ (i : Int) + offset = k + 3 ∧
      k + 3 < lines.length + room

namespace Skips

variable {lines more : List Line} {room : Nat}

theorem of_none (h : ∀ line ∈ lines, ∀ comparison a b offset,
    line.instruction ≠ .branchRelative comparison a b offset) : Skips lines room :=
  fun _ line _ _ _ _ hfound hbranch => absurd hbranch (h line (List.mem_of_getElem? hfound) _ _ _ _)

theorem append {needed : Nat} (h : Skips lines needed) (henough : needed ≤ more.length)
    (h' : Skips more room) : Skips (lines ++ more) room := by
  intro i line comparison a b offset hfound hbranch
  rcases getElem?_append_some hfound with hbefore | ⟨j, rfl, hbehind⟩
  · obtain ⟨k, ⟨left, right, x, y, label, htests, hblock⟩, hplace, hgoes, hbound⟩ :=
      h i line comparison a b offset hbefore hbranch
    refine ⟨k, ⟨left, right, x, y, label, htests, ?_⟩, hplace, hgoes, by simp; omega⟩
    rw [List.drop_append]
    exact hblock.trans (List.prefix_append _ _)
  · obtain ⟨k, ⟨left, right, x, y, label, htests, hblock⟩, hplace, hgoes, hbound⟩ :=
      h' j line comparison a b offset hbehind hbranch
    refine ⟨lines.length + k, ⟨left, right, x, y, label, htests, ?_⟩, ?_, ?_, by simp; omega⟩
    · rw [List.drop_append, List.drop_eq_nil_of_le (by omega), Nat.add_sub_cancel_left]
      exact hblock
    · omega
    · push_cast
      omega

end Skips

/-! ## Tests -/

namespace Gen

variable {dst : Register} {g g' : Generator} {loops : List Enclosing}

/-- A test computes what it needs and then branches. -/
theorem jumpUnless_test {condition : Node} {label : String} {test : List Instruction}
    (hnodup : g.registers.reserved.Nodup)
    (h : jumpUnless condition dst label g = .ok () (g.append test)) :
    ∃ operands code, (∀ instruction ∈ code, instruction.isStraight = true) ∧
      (∀ instruction ∈ code, instruction.Computes g dst) ∧
      test = code ++ testCode label condition operands := by
  rw [jumpUnless_eq] at h
  obtain ⟨operands, code, -, hstraight, hcomputes, hsame⟩ :=
    withOperands_computes (fun node _ => expression_computes node) hnodup h
  exact ⟨operands, code, hstraight, hcomputes, Generator.append_injective hsame⟩

/-- What the branches of a test compare, and where they go. -/
theorem mem_testCode {label : String} {condition : Node} {operands : List Operand}
    {instruction : Instruction} (hmem : instruction ∈ testCode label condition operands) :
    (∃ comparison a b, instruction = .branch comparison a b label) ∨
    (∃ left right, condition = .connective .or left right) ∧
      ((∃ a offset, instruction = .branchRelative .greaterEqual a one offset) ∨
        instruction = .jump label) := by
  -- Operands come in the number that the test asks for, so that its code is never empty.
  have hbinary : ∀ {code : Operand → Operand → List Instruction},
      instruction ∈ binaryCode code operands → ∃ a b, instruction ∈ code a b := by
    intro code hmem
    unfold binaryCode at hmem
    split at hmem
    · exact ⟨_, _, hmem⟩
    · cases hmem
  have hunary : ∀ {code : Operand → List Instruction},
      instruction ∈ unaryCode code operands → ∃ a, instruction ∈ code a := by
    intro code hmem
    unfold unaryCode at hmem
    split at hmem
    · exact ⟨_, hmem⟩
    · cases hmem
  cases condition with
  | comparison operator left right =>
    obtain ⟨a, b, hmem⟩ := hbinary hmem
    exact .inl ⟨_, a, b, List.mem_singleton.1 hmem⟩
  | connective operator left right =>
    cases operator with
    | and =>
      obtain ⟨a, b, hmem⟩ := hbinary hmem
      simp only [List.mem_cons, List.not_mem_nil, or_false] at hmem
      rcases hmem with rfl | rfl
      · exact .inl ⟨_, _, _, rfl⟩
      · exact .inl ⟨_, _, _, rfl⟩
    | or =>
      obtain ⟨a, b, hmem⟩ := hbinary hmem
      simp only [List.mem_cons, List.not_mem_nil, or_false] at hmem
      -- A disjunction jumps over its last instruction with relative branches, and only the jump
      -- names the label.
      refine .inr ⟨⟨left, right, rfl⟩, ?_⟩
      rcases hmem with rfl | rfl | rfl
      · exact .inl ⟨_, _, rfl⟩
      · exact .inl ⟨_, _, rfl⟩
      · exact .inr rfl
  | _ =>
    obtain ⟨a, hmem⟩ := hunary hmem
    exact .inl ⟨_, _, _, List.mem_singleton.1 hmem⟩

/-- A test goes nowhere but to its label. -/
theorem directed_test (origin : Node) (loops : List Enclosing) {condition : Node}
    {label : String} {test : List Instruction} (hnodup : g.registers.reserved.Nodup)
    (h : jumpUnless condition dst label g = .ok () (g.append test)) :
    Directed (listed origin loops test) [label] := by
  obtain ⟨operands, code, hstraight, -, rfl⟩ := jumpUnless_test hnodup h
  refine .of_listed fun instruction hmem target hgoes => .inr ?_
  rcases List.mem_append.1 hmem with hmem | hmem
  · rw [Instruction.target?_of_straight (hstraight instruction hmem)] at hgoes
    cases hgoes
  · rcases mem_testCode hmem with ⟨comparison, a, b, rfl⟩ | ⟨-, ⟨a, offset, rfl⟩ | rfl⟩
    · exact List.mem_singleton.2 (Option.some.inj hgoes).symm
    · cases hgoes
    · exact List.mem_singleton.2 (Option.some.inj hgoes).symm

theorem roundTest_none {label : String} {test : List Instruction}
    (h : roundTest none dst label g = .ok () (g.append test)) : test = [] := by
  refine Generator.append_injective (g := g) ?_
  rw [Generator.append_nil]
  exact (pure_eq_ok.1 h).2.symm

theorem directed_roundTest (origin : Node) (loops : List Enclosing) {condition : Option Node}
    {label : String} {test : List Instruction} (hnodup : g.registers.reserved.Nodup)
    (h : roundTest condition dst label g = .ok () (g.append test)) :
    Directed (listed origin loops test) [label] := by
  cases condition with
  | none =>
    obtain rfl := roundTest_none h
    exact .of_listed (by simp)
  | some condition => exact directed_test origin loops hnodup h

/-- The relative branches of a test go to what stands behind the test. -/
theorem skips_test {condition origin : Node} {label : String} {test : List Instruction}
    (hnodup : g.registers.reserved.Nodup) (htests : origin.condition? = some condition)
    (h : jumpUnless condition dst label g = .ok () (g.append test)) :
    Skips (listed origin loops test) 1 := by
  obtain ⟨operands, code, hstraight, -, rfl⟩ := jumpUnless_test hnodup h
  intro i line comparison a b offset hfound hbranch
  obtain ⟨-, rfl, rfl⟩ := mem_listed.1 (List.mem_of_getElem? hfound)
  have hi : (code ++ testCode label condition operands)[i]? =
      some (.branchRelative comparison a b offset) := by
    rw [listed, List.getElem?_map, Option.map_eq_some_iff] at hfound
    obtain ⟨instruction, hfound, hsame⟩ := hfound
    rw [← hbranch, ← hsame]
    exact hfound
  rcases getElem?_append_some hi with hbefore | ⟨k, rfl, hbehind⟩
  · cases hstraight _ (List.mem_of_getElem? hbefore)
  · -- Only the test of a disjunction branches relatively.
    rcases mem_testCode (List.mem_of_getElem? hbehind) with ⟨_, _, _, hsame⟩ |
      ⟨⟨left, right, rfl⟩, -⟩
    · cases hsame
    · simp only [testCode, binaryCode] at hbehind ⊢
      split at hbehind
      · next x y =>
        refine ⟨code.length, ⟨left, right, x, y, label, htests, ?_⟩, ?_⟩
        · simp [listed]
        · simp only [length_listed, List.length_append, List.length_cons, List.length_nil]
          -- The first two of the three instructions are relative branches.
          rcases k with - | - | - | k
          · cases hbehind
            exact ⟨.inl rfl, by push_cast; omega, by omega⟩
          · cases hbehind
            exact ⟨.inr rfl, by push_cast; omega, by omega⟩
          · cases hbehind
          · cases hbehind
      · cases hbehind

theorem skips_roundTest {condition : Option Node} {origin : Node} {label : String}
    {test : List Instruction} (hnodup : g.registers.reserved.Nodup)
    (htests : ∀ c, condition = some c → origin.condition? = some c)
    (h : roundTest condition dst label g = .ok () (g.append test)) :
    Skips (listed origin loops test) 1 := by
  cases condition with
  | none =>
    obtain rfl := roundTest_none h
    exact .of_none (by simp [listed])
  | some condition => exact skips_test hnodup (htests condition rfl) h

end Gen

/-! ## Listings -/

/-- A generator between the statements inside some loops. -/
structure Generator.Within (g : Generator) (loops : List Enclosing) : Prop where
  nodup : g.registers.reserved.Nodup
  loops : g.loops = loops.map (·.labels)

namespace Generator.Within

variable {g g' : Generator} {loops : List Enclosing}

theorem later {names : List String} (h : g.Within loops) (hmore : Extends names g g') :
    g'.Within loops :=
  ⟨hmore.nodup, hmore.loops.trans h.loops⟩

/-- Inside one loop more. -/
theorem entered (h : g.Within loops) (node : Node) (startStem endStem : String)
    (test : List Instruction) :
    ((g.entered startStem endStem).append test).Within
      (⟨node, g.loopLabels startStem endStem⟩ :: loops) :=
  ⟨h.nodup, congrArg (g.loopLabels startStem endStem :: ·) h.loops⟩

end Generator.Within

namespace Gen

variable {dst : Register} {g g' : Generator} {loops : List Enclosing} {node : Node}
  {lines : List Line}

theorem Lists.enclosed (h : Lists dst loops node g g' lines) : Enclosed lines loops := by
  induction h with
  | done => exact fun i line hfound => by simp at hfound
  | next _ _ hfirst hlater => exact hfirst.append hlater
  | decided _ _ ih => exact ih
  | only _ _ _ ih => exact (Enclosed.of_listed.append ih).append .of_listed
  | either _ _ _ _ hfirst hsecond =>
    exact (((Enclosed.of_listed.append hfirst).append .of_listed).append hsecond).append .of_listed
  | @repeats loops node body startStem endStem condition g g₁ test lines hform _ _ ih =>
    refine Enclosed.of_loop ((Enclosed.of_listed.append ih).append .of_listed) ?_
      (getElem?_append_of_right (i := 1) ?_ _) ?_
    · simp [listed]
    · rfl
    · simp only [List.length_append, length_listed, List.length_cons, List.length_nil]
  | simple _ _ _ => exact .of_listed

/-- A loop control is one jump. -/
theorem control_code {kind : LoopControl} {code : List Instruction}
    (h : statement (.control kind) dst g = .ok () g')
    (hadded : g'.code.toList = g.code.toList ++ code) :
    ∃ target, LoopStack.target? g.loops kind = some target ∧ code = [.jump target] := by
  rw [statement] at h
  obtain ⟨target, hfound, rfl⟩ := loopControl_cases h
  rw [Generator.append_code_toList] at hadded
  exact ⟨target, hfound, (List.append_cancel_left hadded).symm⟩

/-- It goes to the innermost loop. -/
theorem control_target {kind : LoopControl} {code : List Instruction} (hwithin : g.Within loops)
    (h : statement (.control kind) dst g = .ok () g')
    (hadded : g'.code.toList = g.code.toList ++ code) :
    ∃ e outer, loops = e :: outer ∧ code = [.jump (e.labels.target kind)] := by
  obtain ⟨target, hfound, rfl⟩ := control_code h hadded
  cases loops with
  | nil =>
    rw [hwithin.loops] at hfound
    cases hfound
  | cons e outer =>
    rw [hwithin.loops] at hfound
    obtain rfl := Option.some.inj hfound
    exact ⟨e, outer, rfl, rfl⟩

/-- The code of any other simple statement is straight-line code. -/
theorem simple_straight {code : List Instruction} (hsimple : node.isSimple = true)
    (hnoControl : ∀ kind, node ≠ .control kind) (hnodup : g.registers.reserved.Nodup)
    (h : statement node dst g = .ok () g') (hadded : g'.code.toList = g.code.toList ++ code) :
    ∀ instruction ∈ code, instruction.isStraight = true := by
  intro instruction hmem
  exact ((simple_belongs hsimple hnoControl hnodup h).of_append hadded instruction hmem).straight

/-- **Jumps and branches lead downwards, or to the start of a loop around them.** -/
theorem Lists.directed (h : Lists dst loops node g g' lines) (hwithin : g.Within loops) :
    Directed lines (exits loops) := by
  induction h with
  | done => exact fun i line target hfound => by simp at hfound
  | next hfirst _ ih hlater =>
    exact .append _ (ih hwithin) (fun _ => .inl)
      (hlater (hwithin.later (hfirst.extends hwithin.nodup)))
  | decided _ _ ih => exact ih hwithin
  | @only loops condition thenBranch g g₁ test lines _ htested hlisting ih =>
    have hfirst := directed_test (g := g.labelled "if") (.branch condition thenBranch none) loops
      hwithin.nodup htested
    have hsecond := ih ⟨hwithin.nodup, hwithin.loops⟩
    refine .append (g.nextLabel "if" :: exits loops) ?_ (Directed.placed_cons (by simp))
      (.of_listed (by simp [Instruction.target?]))
    exact .append _ hfirst (by simp) (hsecond.mono (List.subset_cons_self ..))
  | @either loops condition thenBranch elseBranch g g₁ g₂ test lines more
      _ htested hlisting _ ih ih' =>
    have hinside : (((g.labelled "if_else").labelled "if_end").append test).Within loops :=
      ⟨hwithin.nodup, hwithin.loops⟩
    have hbetween := hinside.later (hlisting.extends hinside.nodup)
    have hfirst := directed_test (g := (g.labelled "if_else").labelled "if_end")
      (.branch condition thenBranch (some elseBranch)) loops hwithin.nodup htested
    have hsecond := ih hinside
    have hthird := ih' ⟨hbetween.nodup, hbetween.loops⟩
    -- The label of the other branch is placed first, and the label at the end last.
    refine .append ((g.labelled "if_else").nextLabel "if_end" :: exits loops) ?_
      (Directed.placed_cons (by simp)) (.of_listed (by simp [Instruction.target?]))
    refine .append _ ?_ (fun _ => .inl) (hthird.mono (List.subset_cons_self ..))
    refine .append
      (g.nextLabel "if_else" :: (g.labelled "if_else").nextLabel "if_end" :: exits loops) ?_
      (Directed.placed_cons (by simp)) (.of_listed (by simp [Instruction.target?]))
    exact .append _ hfirst (by simp) (hsecond.mono (by simp))
  | @repeats loops node body startStem endStem condition g g₁ test lines hform htested _ ih =>
    have hinside := hwithin.entered node startStem endStem test
    have hfirst := directed_roundTest (g := g.entered startStem endStem) node
      (⟨node, g.loopLabels startStem endStem⟩ :: loops) hwithin.nodup htested
    have hentered : Directed (listed node (⟨node, g.loopLabels startStem endStem⟩ :: loops)
        [.label (g.loopLabels startStem endStem).againTo]) [] :=
      .of_listed (by simp [Instruction.target?])
    -- Both labels of the loop are among its lines, and only the start is above the others.
    refine .append [(g.loopLabels startStem endStem).leaveTo] ?_ (by simp)
      (.of_listed (by simp [Instruction.target?]))
    exact .append _ (.append _ hentered (by simp) hfirst) (fun _ => .inl) (ih hinside)
  | @simple loops node g g' code hsimple hgenerated hadded =>
    by_cases hcontrol : ∃ kind, node = .control kind
    · obtain ⟨kind, rfl⟩ := hcontrol
      obtain ⟨e, outer, rfl, rfl⟩ := control_target hwithin hgenerated hadded
      refine .of_listed ?_
      cases kind <;> simp [Instruction.target?, LoopLabels.target, exits]
    · refine .of_listed fun instruction hmem target hgoes => ?_
      have hstraight :=
        simple_straight hsimple (by simpa using hcontrol) hwithin.nodup hgenerated hadded
      rw [Instruction.target?_of_straight (hstraight instruction hmem)] at hgoes
      cases hgoes

/-- **Relative branches pass over the jump of their own test**, and there is something behind it. -/
theorem Lists.skips (h : Lists dst loops node g g' lines) (hnodup : g.registers.reserved.Nodup) :
    Skips lines 0 := by
  induction h with
  | done => exact .of_none (by simp)
  | next hfirst _ ih hlater =>
    exact (ih hnodup).append (Nat.zero_le _) (hlater (hfirst.extends hnodup).nodup)
  | decided _ _ ih => exact ih hnodup
  | @only loops condition thenBranch g g₁ test lines _ htested _ ih =>
    -- A relative branch stays inside the test, and the body of the choice stands behind the test.
    rw [List.append_assoc]
    refine (skips_test (g := g.labelled "if") hnodup rfl htested).append (by simp) ?_
    exact (ih hnodup).append (Nat.zero_le _) (.of_none (by simp [listed]))
  | @either loops condition thenBranch elseBranch g g₁ g₂ test lines more
      _ htested hlisting _ ih ih' =>
    have hnodup₁ := (hlisting.extends hnodup).nodup
    rw [List.append_assoc, List.append_assoc, List.append_assoc]
    refine (skips_test (g := (g.labelled "if_else").labelled "if_end") hnodup rfl htested).append
      (by simp; omega) ?_
    refine (ih hnodup).append (Nat.zero_le _) ?_
    refine .append (.of_none (by simp [listed])) (Nat.zero_le _) ?_
    exact (ih' hnodup₁).append (Nat.zero_le _) (.of_none (by simp [listed]))
  | @repeats loops node body startStem endStem condition g g₁ test lines hform htested _ ih =>
    have htests : ∀ c, condition = some c → node.condition? = some c := by
      rintro c rfl
      cases hform
      rfl
    have hentered : Skips (listed node (⟨node, g.loopLabels startStem endStem⟩ :: loops)
        [.label (g.loopLabels startStem endStem).againTo]) 0 := .of_none (by simp [listed])
    rw [List.append_assoc]
    refine (hentered.append (Nat.zero_le _)
      (skips_roundTest (g := g.entered startStem endStem) hnodup htests htested)).append
      (by simp) ?_
    exact (ih hnodup).append (Nat.zero_le _) (.of_none (by simp [listed]))
  | @simple loops node g g' code hsimple hgenerated hadded =>
    refine .of_none fun line hmem comparison a b offset hbranch => ?_
    have hplaced := (mem_listed.1 hmem).1
    rw [hbranch] at hplaced
    by_cases hcontrol : ∃ kind, node = .control kind
    · obtain ⟨kind, rfl⟩ := hcontrol
      obtain ⟨target, -, rfl⟩ := control_code hgenerated hadded
      simp at hplaced
    · cases simple_straight hsimple (by simpa using hcontrol) hnodup hgenerated hadded _ hplaced

/-- The lines that a compound statement puts around its parts belong to no simple statement. -/
theorem not_isSimple_of_listed {origin : Node} {code : List Instruction} {line : Line}
    (hmem : line ∈ listed origin loops code) (hcompound : origin.isSimple = false) :
    ¬ line.origin.isSimple = true := by
  rw [(mem_listed.1 hmem).2.1, hcompound]
  exact Bool.false_ne_true

/-- **Loop controls go to the innermost loop.** -/
theorem Lists.controls (h : Lists dst loops node g g' lines) (hwithin : g.Within loops) :
    ∀ line ∈ lines, ∀ kind, line.origin = .control kind →
      ∃ e outer, line.loops = e :: outer ∧ line.instruction = .jump (e.labels.target kind) := by
  induction h with
  | done => simp
  | next hfirst _ ih hlater =>
    intro line hmem kind hcontrol
    rcases List.mem_append.1 hmem with hmem | hmem
    · exact ih hwithin line hmem kind hcontrol
    · exact hlater (hwithin.later (hfirst.extends hwithin.nodup)) line hmem kind hcontrol
  | decided _ _ ih => exact ih hwithin
  | only _ _ _ ih =>
    intro line hmem kind hcontrol
    have hsimple : line.origin.isSimple = true := by rw [hcontrol]; rfl
    simp only [List.mem_append] at hmem
    rcases hmem with (hmem | hmem) | hmem
    · exact absurd hsimple (not_isSimple_of_listed hmem rfl)
    · exact ih ⟨hwithin.nodup, hwithin.loops⟩ line hmem kind hcontrol
    · exact absurd hsimple (not_isSimple_of_listed hmem rfl)
  | @either loops condition thenBranch elseBranch g g₁ g₂ test lines more _ _ hlisting _ ih ih' =>
    have hinside : (((g.labelled "if_else").labelled "if_end").append test).Within loops :=
      ⟨hwithin.nodup, hwithin.loops⟩
    have hbetween := hinside.later (hlisting.extends hinside.nodup)
    intro line hmem kind hcontrol
    have hsimple : line.origin.isSimple = true := by rw [hcontrol]; rfl
    simp only [List.mem_append] at hmem
    rcases hmem with (((hmem | hmem) | hmem) | hmem) | hmem
    · exact absurd hsimple (not_isSimple_of_listed hmem rfl)
    · exact ih hinside line hmem kind hcontrol
    · exact absurd hsimple (not_isSimple_of_listed hmem rfl)
    · exact ih' ⟨hbetween.nodup, hbetween.loops⟩ line hmem kind hcontrol
    · exact absurd hsimple (not_isSimple_of_listed hmem rfl)
  | @repeats loops node body startStem endStem condition g g₁ test lines hform _ _ ih =>
    have hcompound : node.isSimple = false := by cases hform <;> rfl
    intro line hmem kind hcontrol
    have hsimple : line.origin.isSimple = true := by rw [hcontrol]; rfl
    simp only [List.mem_append] at hmem
    rcases hmem with (hmem | hmem) | hmem
    · exact absurd hsimple (not_isSimple_of_listed hmem hcompound)
    · exact ih (hwithin.entered ..) line hmem kind hcontrol
    · exact absurd hsimple (not_isSimple_of_listed hmem hcompound)
  | @simple loops node g g' code _ hgenerated hadded =>
    intro line hmem kind hcontrol
    obtain ⟨hplaced, hsame, haround⟩ := mem_listed.1 hmem
    -- The line is that of the control itself, and its loops are those that it was generated in.
    obtain rfl := hsame.symm.trans hcontrol
    obtain ⟨e, outer, rfl, rfl⟩ := control_target hwithin hgenerated hadded
    exact ⟨e, outer, haround, List.mem_singleton.1 hplaced⟩

/-- What is left of a statement that a condition decides is a part of it. -/
theorem around_of_decided {node inside : Node} {rest : List Node} {loops : List Node}
    (hdecided : node.decided? = some rest) (hsimple : inside.isSimple = true)
    (h : (Node.block rest).Around loops inside) : node.Around loops inside := by
  cases h with
  | self => cases hsimple
  | @block _ part _ _ hmem h =>
    -- A decided statement is a choice with one branch left, or a loop that is never entered.
    cases node with
    | branch condition thenBranch elseBranch =>
      obtain ⟨holds, -, rfl⟩ := Option.map_eq_some_iff.1 hdecided
      cases holds with
      | true =>
        obtain rfl := List.mem_singleton.1 hmem
        exact .thenBranch h
      | false =>
        cases elseBranch with
        | none => cases hmem
        | some other =>
          obtain rfl := List.mem_singleton.1 hmem
          exact .elseBranch h
    | whileLoop condition body =>
      simp only [Node.decided?] at hdecided
      split at hdecided
      · cases hdecided
        cases hmem
      · cases hdecided
    | _ => cases hdecided

/-- **The loops of a line are the loops around its statement in the tree.** -/
theorem Lists.around (h : Lists dst loops node g g' lines) :
    ∀ line ∈ lines, line.origin.isSimple = true →
      ∃ inner, node.Around inner line.origin ∧
        line.loops.map (·.loop) = inner ++ loops.map (·.loop) := by
  induction h with
  | done => simp
  | next _ _ ih hlater =>
    intro line hmem hsimple
    rcases List.mem_append.1 hmem with hmem | hmem
    · obtain ⟨inner, haround, hloops⟩ := ih line hmem hsimple
      exact ⟨inner, .block (List.mem_cons_self ..) haround, hloops⟩
    · obtain ⟨inner, haround, hloops⟩ := hlater line hmem hsimple
      refine ⟨inner, ?_, hloops⟩
      -- The rest of a block is a block of its own, which holds its statements as the whole block
      -- does.
      generalize line.origin = inside at haround hsimple
      cases haround with
      | self => cases hsimple
      | block hmem haround => exact .block (List.mem_cons_of_mem _ hmem) haround
  | decided hdecided _ ih =>
    intro line hmem hsimple
    obtain ⟨inner, haround, hloops⟩ := ih line hmem hsimple
    exact ⟨inner, around_of_decided hdecided hsimple haround, hloops⟩
  | only _ _ _ ih =>
    intro line hmem hsimple
    simp only [List.mem_append] at hmem
    rcases hmem with (hmem | hmem) | hmem
    · exact absurd hsimple (not_isSimple_of_listed hmem rfl)
    · obtain ⟨inner, haround, hloops⟩ := ih line hmem hsimple
      exact ⟨inner, .thenBranch haround, hloops⟩
    · exact absurd hsimple (not_isSimple_of_listed hmem rfl)
  | either _ _ _ _ ih ih' =>
    intro line hmem hsimple
    simp only [List.mem_append] at hmem
    rcases hmem with (((hmem | hmem) | hmem) | hmem) | hmem
    · exact absurd hsimple (not_isSimple_of_listed hmem rfl)
    · obtain ⟨inner, haround, hloops⟩ := ih line hmem hsimple
      exact ⟨inner, .thenBranch haround, hloops⟩
    · exact absurd hsimple (not_isSimple_of_listed hmem rfl)
    · obtain ⟨inner, haround, hloops⟩ := ih' line hmem hsimple
      exact ⟨inner, .elseBranch haround, hloops⟩
    · exact absurd hsimple (not_isSimple_of_listed hmem rfl)
  | @repeats loops node body startStem endStem condition g g₁ test lines hform _ _ ih =>
    have hcompound : node.isSimple = false := by cases hform <;> rfl
    intro line hmem hsimple
    simp only [List.mem_append] at hmem
    rcases hmem with (hmem | hmem) | hmem
    · exact absurd hsimple (not_isSimple_of_listed hmem hcompound)
    · obtain ⟨inner, haround, hloops⟩ := ih line hmem hsimple
      -- The loop is outside of all loops in its body.
      refine ⟨inner ++ [node], ?_, by simp [hloops]⟩
      cases hform with
      | loop => exact .loop haround
      | always => exact .whileLoop haround
      | tested => exact .whileLoop haround
    · exact absurd hsimple (not_isSimple_of_listed hmem hcompound)
  | simple _ _ _ =>
    intro line hmem hsimple
    obtain ⟨-, hsame, haround⟩ := mem_listed.1 hmem
    rw [hsame, haround]
    exact ⟨[], .self, rfl⟩

end Gen

/-! ## Scripts -/

/-- **Jumps are closed and unambiguous.**  No label stands twice, and every jump and every branch
    goes to a label that is there.  In the listing of the code, every relative branch belongs to the
    test of a disjunction and goes to what stands behind the jump of this test; and every loop
    control jumps to the start or to the end of the lines of the innermost loop around it. -/
theorem jumps_are_closed {program : Program} {code : List Instruction}
    (hgenerated : program.code = .ok code) :
    (labelsIn code).Nodup ∧
    (∀ instruction ∈ code, ∀ target, instruction.target? = some target → .label target ∈ code) ∧
    ∃ lines final, program.Listed lines final ∧ lines.map (·.instruction) = code ∧
      (∀ (i : Nat) (line : Line) (comparison : Comparison) (a b : Operand) (offset : Int),
        lines[i]? = some line → line.instruction = .branchRelative comparison a b offset →
        ∃ k : Nat, DisjunctionAt lines line k ∧ (i = k ∨ i = k + 1) ∧ (i : Int) + offset = k + 3 ∧
          k + 3 < code.length) ∧
      (∀ (i : Nat) (line : Line) (kind : LoopControl),
        lines[i]? = some line → line.origin = .control kind →
        ∃ e outer first last, line.loops = e :: outer ∧
          (Node.block program).Around (line.loops.map (·.loop)) (.control kind) ∧
          line.instruction = .jump (e.labels.target kind) ∧
          LoopLines lines e outer first last ∧ first ≤ i ∧ i ≤ last) := by
  obtain ⟨lines, final, hlisting, rfl⟩ := Program.Listed.exists_of_code hgenerated
  have hdistinct := hlisting.labels_nodup
  obtain ⟨scratch, hlists⟩ := id hlisting
  have hwithin : (Generator.empty.hold [scratch]).Within [] := ⟨List.nodup_singleton _, rfl⟩
  have henclosed := hlists.enclosed
  refine ⟨hdistinct, ?_, lines, final, hlisting, rfl, ?_, ?_⟩
  · intro instruction hmem target hgoes
    obtain ⟨line, hplaced, rfl⟩ := List.mem_map.1 hmem
    obtain ⟨i, hfound⟩ := List.getElem?_of_mem hplaced
    rcases hlists.directed hwithin i line target hfound hgoes with ⟨j, below, -, hj, hlabel⟩ |
      ⟨e, haround, rfl⟩ | hopen
    · exact List.mem_map.2 ⟨below, List.mem_of_getElem? hj, hlabel⟩
    · -- The start of a loop around the line is among the lines.
      obtain ⟨inner, hsplit, hloops⟩ := henclosed i line hfound
      rw [hsplit, List.append_nil] at haround
      obtain ⟨innermost, outer, rfl⟩ := List.append_of_mem haround
      obtain ⟨first, last, -, -, hloop⟩ := hloops innermost e outer rfl
      exact List.mem_map.2 ⟨_, List.mem_of_getElem? hloop.start, rfl⟩
    · cases hopen
  · rw [List.length_map]
    exact hlists.skips hwithin.nodup
  · intro i line kind hfound hcontrol
    obtain ⟨e, outer, haround, hjump⟩ :=
      hlists.controls hwithin line (List.mem_of_getElem? hfound) kind hcontrol
    obtain ⟨inner, hstands, hloops⟩ := hlists.around line (List.mem_of_getElem? hfound)
      (by rw [hcontrol]; rfl)
    obtain ⟨inner', hsplit, hwithin'⟩ := henclosed i line hfound
    rw [List.append_nil] at hsplit
    obtain ⟨first, last, habove, hbelow, hloop⟩ :=
      hwithin' [] e outer (by rw [← hsplit, haround, List.nil_append])
    rw [List.append_nil] at hloop
    refine ⟨e, outer, first, last, haround, ?_, hjump, hloop, habove, hbelow⟩
    rw [hloops, ← hcontrol]
    simpa using hstands

/-! ## A loop in a loop -/

/-- A script with loop controls in an inner and in an outer loop. -/
def nestedScript : Program :=
  [.declare "n" (.number "0"),
    .loop (.block [
      .whileLoop (.connective .or (.comparison .less (.read "n" none none) (.number "3"))
          (.read "n" none none))
        (.branch (.read "n" none none) (.control .again) (some (.control .leave))),
      .control .leave])]

def nestedCode : List Instruction :=
  [.move ⟨15⟩ (.immediate "0"),
    .label "loop_start001",
    .label "while_start001",
    .compare .less ⟨0⟩ (.register ⟨15⟩) (.immediate "3"),
    .branchRelative .greaterEqual (.register ⟨0⟩) (.immediate "1") 3,
    .branchRelative .greaterEqual (.register ⟨15⟩) (.immediate "1") 2,
    .jump "while_end001",
    .branch .less (.register ⟨15⟩) (.immediate "1") "if_else001",
    .jump "while_start001",
    .jump "if_end001",
    .label "if_else001",
    .jump "while_end001",
    .label "if_end001",
    .jump "while_start001",
    .label "while_end001",
    .jump "loop_end001",
    .jump "loop_start001",
    .label "loop_end001"]

theorem code_nestedScript : nestedScript.code = .ok nestedCode := by
  cbv

theorem jumps_are_closed_nested :
    nestedScript.code = .ok nestedCode ∧ (labelsIn nestedCode).Nodup ∧
    .label "while_end001" ∈ nestedCode ∧
    ∃ lines final, nestedScript.Listed lines final ∧ lines.map (·.instruction) = nestedCode ∧
      ∀ line, lines[8]? = some line → line.origin = .control .again →
        ∃ e outer first last, line.loops = e :: outer ∧
          line.instruction = .jump e.labels.againTo ∧ LoopLines lines e outer first last := by
  obtain ⟨hdistinct, hdefined, lines, final, hlisting, hsame, -, hcontrols⟩ :=
    jumps_are_closed code_nestedScript
  refine ⟨code_nestedScript, hdistinct, ?_, lines, final, hlisting, hsame, ?_⟩
  · exact hdefined (.jump "while_end001") (by decide) _ rfl
  · intro line hfound hcontrol
    obtain ⟨e, outer, first, last, haround, -, hjump, hloop, -, -⟩ :=
      hcontrols 8 line .again hfound hcontrol
    exact ⟨e, outer, first, last, haround, hjump, hloop⟩

end ChipScript
