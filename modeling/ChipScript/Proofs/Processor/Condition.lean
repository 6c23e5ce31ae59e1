import ChipScript.Proofs.Number.Comparison
import ChipScript.Proofs.Chip.Values
import ChipScript.Proofs.Semantics.Processor

/-!
# What a test decides when there are NaNs

A test jumps on the inverse of a comparison, or where a value is below one.  A NaN meets neither the
comparison nor its inverse and is not below one, so that a test may pass although its condition does
not count as true (`Node.slips`).  `Processor.jumpUnless_decides` says of every test when it jumps:
exactly where the value of its condition does not count as true and no NaN slips through.

Only `==`, `!=` and `||` are tested without such a gap.
-/

namespace ChipScript

/-! ## Values and tests -/

theorem unordered_one (x : Float) : (x.isNaN || (1.0 : Float).isNaN) = x.isNaN := by
  have hone : (1.0 : Float).isNaN = false := by decide +kernel
  rw [hone, Bool.or_false]

/-- A number does not count as true if it is below one, or if it is NaN. -/
theorem not_isTrue (x : Float) : (!isTrue x) = (decide (x < 1.0) || x.isNaN) := by
  have hinverse : isTrue x = (!decide (x < 1.0) && !(x.isNaN || (1.0 : Float).isNaN)) :=
    Comparison.holds_inverse .less x 1.0
  rw [hinverse, unordered_one]
  simp

/-- A number is not below one if it counts as true, or if it is NaN. -/
theorem not_below_one (x : Float) : (!decide (x < 1.0)) = (isTrue x || x.isNaN) := by
  have hinverse : decide (x < 1.0) = (!isTrue x && !(x.isNaN || (1.0 : Float).isNaN)) :=
    Comparison.holds_inverse .greaterEqual x 1.0
  rw [hinverse, unordered_one]
  simp

/-- A value is compared with one to see whether it counts as true. -/
theorem holds_one (x : Float) : Comparison.greaterEqual.holds x 1.0 = isTrue x := rfl

theorem isTrue_truthValue (b : Bool) : isTrue (truthValue b) = b := by
  cases b <;> decide +kernel

namespace Node

/-- The value of a condition, from the values that decide it. -/
def decidedBy : Node → List Float → Float
  | comparison operator _ _, [a, b] => truthValue (operator.holds a b)
  | connective operator _ _, [a, b] => truthValue (operator.apply (isTrue a) (isTrue b))
  | not _, [a] => truthValue (a < 1.0)
  | _, values => values.headD 0.0

/-- Whether a NaN among the values that decide a condition slips through its test. -/
def slips : Node → List Float → Bool
  | comparison operator _ _, [a, b] => operator.unordered a b
  | connective .and _ _, [a, b] => (a.isNaN || b.isNaN) && !(a < 1.0) && !(b < 1.0)
  | connective .or _ _, _ => false
  | _, values => (values.headD 0.0).isNaN

/-- Whether the test of a condition passes. -/
def passes : Node → List Float → Bool
  | comparison operator _ _, [a, b] => !operator.inverse.holds a b
  | connective .and _ _, [a, b] => !(a < 1.0) && !(b < 1.0)
  | connective .or _ _, [a, b] => isTrue a || isTrue b
  | not _, [a] => !isTrue a
  | _, values => !(values.headD 0.0 < 1.0)

/-- **A test passes where its condition counts as true, and where a NaN slips through.** -/
theorem passes_eq {condition : Node} {values : List Float}
    (hlength : values.length = (Gen.tested condition).length) :
    condition.passes values = (isTrue (condition.decidedBy values) || condition.slips values) := by
  cases condition with
  | comparison operator left right =>
    obtain ⟨a, b, rfl⟩ := List.length_eq_two.1 hlength
    simp only [passes, decidedBy, slips, isTrue_truthValue, Comparison.holds_inverse]
    simp
  | connective operator left right =>
    obtain ⟨a, b, rfl⟩ := List.length_eq_two.1 hlength
    cases operator with
    | and =>
      -- A side that is not below one counts as true or is NaN.
      simp only [passes, decidedBy, slips, isTrue_truthValue, Connective.apply, not_below_one]
      cases isTrue a <;> cases isTrue b <;> cases a.isNaN <;> cases b.isNaN <;> rfl
    | or => simp [passes, decidedBy, slips, isTrue_truthValue, Connective.apply]
  | not operand =>
    obtain ⟨a, rfl⟩ := List.length_eq_one_iff.1 hlength
    simp only [passes, decidedBy, slips, isTrue_truthValue, List.headD_cons]
    exact not_isTrue a
  | _ =>
    obtain ⟨a, rfl⟩ := List.length_eq_one_iff.1 hlength
    exact not_below_one a

end Node

namespace Processor

variable {P : Processor} {code : List Instruction} {k target : Nat} {s : Contents Float}
  {label : String} {a b : Operand}

@[simp] theorem read_one (s : Contents Float) : P.read s Gen.one = 1.0 :=
  P.word_one

/-! ## Steps through a test -/

/-- An instruction that stands in a piece of code is fetched there. -/
theorem fetched_of_placed {instruction : Instruction} {piece : List Instruction}
    (hplaced : instruction :: piece <+: code.drop k) :
    code[k]? = some instruction ∧ piece <+: code.drop (k + 1) := by
  obtain ⟨later, hsplit⟩ := hplaced
  rw [List.cons_append] at hsplit
  refine ⟨?_, later, ?_⟩
  · have hhead := congrArg List.head? hsplit
    rw [List.head?_drop] at hhead
    exact hhead.symm
  · have htail := congrArg List.tail hsplit
    rw [List.tail_drop] at htail
    exact htail

theorem perform_of_straight {instruction : Instruction} (hstraight : instruction.isStraight = true)
    (hgoesOn : .hcf ≠ instruction) :
    P.perform code (.placed k s) instruction = .placed (k + 1) (P.effect s instruction) := by
  cases instruction with
  | hcf => exact absurd rfl hgoesOn
  | label name | jump target | branch comparison left right target
    | branchRelative comparison left right offset => cases hstraight
  | _ => rfl

/-- What stands behind some code is found behind its length. -/
theorem prefix_drop {before piece : List Instruction} (h : before ++ piece <+: code) :
    piece <+: code.drop before.length := by
  obtain ⟨later, rfl⟩ := h
  simp

/-- Code without jumps is run to its end. -/
theorem leads_run {piece : List Instruction}
    (hstraight : ∀ instruction ∈ piece, instruction.isStraight = true) (hgoesOn : .hcf ∉ piece)
    (hplaced : piece <+: code.drop k) :
    P.Leads code (.placed k s) (.placed (k + piece.length) (P.run s piece)) := by
  -- By induction on the piece: the place and the contents move on with each instruction.
  induction piece generalizing k s with
  | nil => exact .refl _
  | cons instruction rest ih =>
    obtain ⟨hfetched, hplaced⟩ := fetched_of_placed hplaced
    rw [List.mem_cons, not_or] at hgoesOn
    have hstep := leads_perform (P := P) (s := s) hfetched
    rw [perform_of_straight (hstraight instruction (List.mem_cons_self ..)) hgoesOn.1] at hstep
    have hlater := ih (s := P.effect s instruction)
      (fun i hmem => hstraight i (List.mem_cons_of_mem _ hmem)) hgoesOn.2 hplaced
    rw [List.length_cons, Nat.add_comm rest.length, ← Nat.add_assoc]
    exact hstep.trans hlater

theorem leads_branch {comparison : Comparison}
    (hfetched : code[k]? = some (.branch comparison a b label))
    (hfound : labelIndex? code label = some target) :
    P.Leads code (.placed k s)
      (.placed (if comparison.holds (P.read s a) (P.read s b) then target else k + 1) s) := by
  have hstep := leads_perform (P := P) (s := s) hfetched
  simp only [perform, Machine.contents_placed, Machine.jumpIn, hfound] at hstep
  split at hstep
  · next hholds => rw [if_pos hholds]; exact hstep
  · next hfails => rw [if_neg hfails]; exact hstep

theorem leads_branchRelative {comparison : Comparison} (offset : Nat)
    (hfetched : code[k]? = some (.branchRelative comparison a b offset)) :
    P.Leads code (.placed k s)
      (.placed (if comparison.holds (P.read s a) (P.read s b) then k + offset else k + 1) s) := by
  have hstep := leads_perform (P := P) (s := s) hfetched
  have hmoved : (Machine.placed k s).moveBy (offset : Int) = .placed (k + offset) s := by
    have hforward : (0 : Int) ≤ k + offset := by omega
    have hindex : ((k : Int) + offset).toNat = k + offset := by omega
    simp only [Machine.placed, Machine.moveBy, if_pos hforward, hindex]
  simp only [perform, Machine.contents_placed, hmoved] at hstep
  split at hstep
  · next hholds => rw [if_pos hholds]; exact hstep
  · next hfails => rw [if_neg hfails]; exact hstep

theorem leads_jump (hfetched : code[k]? = some (.jump label))
    (hfound : labelIndex? code label = some target) :
    P.Leads code (.placed k s) (.placed target s) := by
  have hstep := leads_perform (P := P) (s := s) hfetched
  simp only [perform, Machine.jumpIn, hfound] at hstep
  exact hstep

/-- A single branch passes where its comparison fails. -/
theorem branch_decides {comparison : Comparison} {passes : Bool}
    (hplaced : [.branch comparison a b label] <+: code.drop k)
    (hfound : labelIndex? code label = some target)
    (hdecides : comparison.holds (P.read s a) (P.read s b) = !passes) :
    P.Leads code (.placed k s) (.placed (if passes then k + 1 else target) s) := by
  have hstep := leads_branch (P := P) (s := s) (fetched_of_placed hplaced).1 hfound
  rw [hdecides] at hstep
  cases passes with
  | true => exact hstep
  | false => exact hstep

/-- Both sides of a conjunction may go to the label. -/
theorem conjunction_decides
    (hplaced : [.branch .less a Gen.one label, .branch .less b Gen.one label] <+: code.drop k)
    (hfound : labelIndex? code label = some target) :
    P.Leads code (.placed k s)
      (.placed (if !(P.read s a < 1.0) && !(P.read s b < 1.0) then k + 2 else target) s) := by
  obtain ⟨hfetched, hrest⟩ := fetched_of_placed hplaced
  have hfirst := leads_branch (P := P) (s := s) hfetched hfound
  have hsecond : P.Leads code (.placed (k + 1) s)
      (.placed (if !(P.read s b < 1.0) then k + 2 else target) s) :=
    branch_decides hrest hfound (by simp [Comparison.holds])
  simp only [Comparison.holds, read_one] at hfirst
  -- The second branch is reached only if the first one is not taken.
  cases hbelow : decide (P.read s a < 1.0) with
  | true =>
    rw [hbelow] at hfirst
    exact hfirst
  | false =>
    rw [hbelow] at hfirst
    exact hfirst.trans hsecond

/-- Either side of a disjunction passes over the jump. -/
theorem disjunction_decides
    (hplaced : [.branchRelative .greaterEqual a Gen.one 3,
      .branchRelative .greaterEqual b Gen.one 2, .jump label] <+: code.drop k)
    (hfound : labelIndex? code label = some target) :
    P.Leads code (.placed k s)
      (.placed (if isTrue (P.read s a) || isTrue (P.read s b) then k + 3 else target) s) := by
  obtain ⟨hfetched, hrest⟩ := fetched_of_placed hplaced
  obtain ⟨hfetched', hrest'⟩ := fetched_of_placed hrest
  have hfirst := leads_branchRelative (P := P) (s := s) 3 hfetched
  have hsecond := leads_branchRelative (P := P) (s := s) 2 hfetched'
  have hlast := leads_jump (P := P) (s := s) (fetched_of_placed hrest').1 hfound
  rw [read_one, holds_one] at hfirst hsecond
  -- Both branches lead behind the jump: by three lines from the first, by two from the second.
  cases hleft : isTrue (P.read s a) with
  | true =>
    rw [hleft] at hfirst
    exact hfirst
  | false =>
    rw [hleft] at hfirst
    refine hfirst.trans ?_
    cases hright : isTrue (P.read s b) with
    | true =>
      rw [hright] at hsecond
      exact hsecond
    | false =>
      rw [hright] at hsecond
      exact hsecond.trans hlast

/-- **The code of a test passes exactly where the test of its condition does.** -/
theorem leads_test {condition : Node} {operands : List Operand}
    (hlength : operands.length = (Gen.tested condition).length)
    (hplaced : Gen.testCode label condition operands <+: code.drop k)
    (hfound : labelIndex? code label = some target) :
    P.Leads code (.placed k s)
      (.placed (if condition.passes (operands.map (P.read s))
        then k + (Gen.testCode label condition operands).length else target) s) := by
  -- The form of the condition decides how many operands there are and which jump tests them.
  cases condition with
  | comparison operator left right =>
    obtain ⟨a, b, rfl⟩ := List.length_eq_two.1 hlength
    refine branch_decides hplaced hfound ?_
    simp [Node.passes]
  | connective operator left right =>
    obtain ⟨a, b, rfl⟩ := List.length_eq_two.1 hlength
    cases operator with
    | and => exact conjunction_decides hplaced hfound
    | or => exact disjunction_decides hplaced hfound
  | not operand =>
    obtain ⟨a, rfl⟩ := List.length_eq_one_iff.1 hlength
    refine branch_decides hplaced hfound ?_
    simp [Node.passes, holds_one]
  | _ =>
    obtain ⟨a, rfl⟩ := List.length_eq_one_iff.1 hlength
    refine branch_decides hplaced hfound ?_
    simp [Node.passes, Comparison.holds]

/-! ## Conditions -/

theorem evaluate_eq_tested (P : Processor) (env : Environment Float) (condition : Node) :
    P.evaluate env condition =
      P.evaluateAll env (Gen.tested condition) >>= fun vs => return condition.decidedBy vs := by
  cases condition <;> simp [Gen.tested, evaluateAll, Node.decidedBy, evaluate]

/-- **A test jumps exactly where the value of its condition does not count as true and no NaN slips
    through.**  The value is what the code of the condition would leave in the register that the
    test may use, from the same contents. -/
theorem jumpUnless_decides (P : Processor) {condition : Node} {dst : Register} {label : String}
    {g : Generator} {test value code : List Instruction} {target : Nat}
    (hdisciplined : g.Disciplined) (hreserved : dst ∈ g.registers.reserved)
    (hunowned : dst ∉ g.owned) (hpure : condition.hasCommand = false)
    (htested : Gen.jumpUnless condition dst label g = .ok () (g.append test))
    (hcomputed : Gen.expression condition dst g = .ok () (g.append value))
    (hplaced : g.code.toList ++ test <+: code) (hfound : labelIndex? code label = some target)
    (s : Contents Float) :
    ∃ values trace s',
      P.evaluateAll (g.environment s.registers) (Gen.tested condition) s.trace = .ok values trace ∧
      P.Leads code (.placed g.code.size s)
        (.placed (if isTrue ((P.run s value).registers dst) || condition.slips values
          then g.code.size + test.length else target) s') ∧
      s'.trace = (P.run s value).trace ∧ KeepsOthers g dst s s' := by
  have hknows : ∀ node, Knows (g.environment s.registers) g s.registers node := fun _ _ _ => rfl
  have hspares : ∀ node, g.Spares dst node :=
    fun _ _ _ hknown => hunowned (Generator.mem_owned hknown)
  have hparts : ∀ node ∈ Gen.tested condition, node.hasCommand = false := by
    cases condition <;> simp_all [Gen.tested, Node.hasCommand]
  -- Both pieces of code begin with the values that decide the condition.
  rw [Gen.jumpUnless_eq] at htested
  obtain ⟨operands, before, hsame, hlength, hstraight, hgathered, hkept, hgoesOn⟩ :=
    Calculator.withOperands_values (E := P.calculator)
      (fun node hmem => Calculator.expression_values P.calculator _ node (hparts node hmem))
      hdisciplined.accounted hreserved (.inr fun node _ => hspares node)
      (fun node _ => hknows node) htested
  obtain rfl := Generator.append_injective hsame
  have hvalued := Calculator.expression_values P.calculator _ condition hpure dst g value s
    hdisciplined.accounted hreserved (.inr (.inr (hspares condition))) (hknows condition) hcomputed
  have hgathers : P.evaluateAll (g.environment s.registers) (Gen.tested condition) s.trace =
      .ok (operands.map (P.read (P.run s before))) (P.run s before).trace := hgathered
  have hdecided : P.evaluate (g.environment s.registers) condition s.trace =
      .ok ((P.run s value).registers dst) (P.run s value).trace := hvalued.value
  rw [evaluate_eq_tested, bind_apply hgathers] at hdecided
  obtain ⟨hleft, htraces⟩ := EStateM.Result.ok.inj hdecided
  refine ⟨_, _, P.run s before, hgathers, ?_, htraces, hkept⟩
  -- The values are gathered, and the branches decide.
  have hsize : g.code.toList.length = g.code.size := Array.length_toList
  have hfirst : before <+: code.drop g.code.size := by
    rw [← hsize]
    exact prefix_drop ((List.prefix_append _ _).trans (List.append_assoc .. ▸ hplaced))
  have hsecond : Gen.testCode label condition operands <+:
      code.drop (g.code.size + before.length) := by
    rw [← hsize, ← List.length_append]
    exact prefix_drop (List.append_assoc .. ▸ hplaced)
  have hruns := leads_run (P := P) (s := s) hstraight hgoesOn hfirst
  have hdecides := leads_test (P := P) (s := P.run s before) hlength hsecond hfound
  rw [Node.passes_eq (by rw [List.length_map, hlength]), hleft, Nat.add_assoc,
    ← List.length_append] at hdecides
  exact hruns.trans hdecides

/-! ## A test that a NaN slips through -/

/-- A chip in a world where every answer is zero. -/
def idle : Processor where
  bitwise operator a b := truthValue (operator.apply (isTrue a) (isTrue b))
  function := fun _ _ => 0.0
  unreadable := fun _ => 0.0
  world := fun _ _ => 0.0
  bitwise_truth := by
    intro operator a b
    rw [isTrue_truthValue, isTrue_truthValue]

/-- A state in which `a` has the highest register and the lowest one may be used. -/
def oneVariable : Generator :=
  (Generator.empty.hold [.last, .first]).declareVariable "a" .last

theorem oneVariable_disciplined : oneVariable.Disciplined :=
  ⟨by decide, by decide⟩

/-- The condition `a < a + 1`. -/
def belowNext : Node :=
  .comparison .less (.read "a" none none) (.arithmetic .add (.read "a" none none) (.number "1"))

/-- Its test, which computes `a + 1` and jumps on the inverse comparison. -/
def belowNextTest : List Instruction :=
  [.arithmetic .add .first (.register .last) (.immediate "1"),
    .branch .greaterEqual (.register .last) (.register .first) "end"]

/-- Its value, which compares the same two numbers. -/
def belowNextValue : List Instruction :=
  [.arithmetic .add .first (.register .last) (.immediate "1"),
    .compare .less .first (.register .last) (.register .first)]

theorem jumpUnless_belowNext :
    Gen.jumpUnless belowNext .first "end" oneVariable =
      .ok () (oneVariable.append belowNextTest) := rfl

theorem expression_belowNext :
    Gen.expression belowNext .first oneVariable = .ok () (oneVariable.append belowNextValue) := rfl

/-- Registers that all hold NaN. -/
def nanContents : Contents Float := ⟨fun _ => idle.word "nan", []⟩

theorem jumpUnless_decides_belowNext :
    oneVariable.Disciplined ∧
    Gen.jumpUnless belowNext .first "end" oneVariable =
      .ok () (oneVariable.append belowNextTest) ∧
    Gen.expression belowNext .first oneVariable = .ok () (oneVariable.append belowNextValue) ∧
    ∃ values trace s',
      idle.evaluateAll (oneVariable.environment nanContents.registers) (Gen.tested belowNext) [] =
        .ok values trace ∧
      idle.Leads (belowNextTest ++ [.yield, .label "end"]) (.placed 0 nanContents)
        (.placed (if isTrue ((idle.run nanContents belowNextValue).registers .first) ||
          belowNext.slips values then 2 else 3) s') := by
  obtain ⟨values, trace, s', hgathered, hleads, -⟩ :=
    jumpUnless_decides idle oneVariable_disciplined (by decide) (by decide) (by decide)
      jumpUnless_belowNext expression_belowNext
      (show oneVariable.code.toList ++ belowNextTest <+:
          belowNextTest ++ [.yield, .label "end"] from
        ⟨[.yield, .label "end"], rfl⟩)
      (show labelIndex? (belowNextTest ++ [.yield, .label "end"]) "end" = some 3 by decide)
      nanContents
  exact ⟨oneVariable_disciplined, jumpUnless_belowNext, expression_belowNext, values, trace, s',
    hgathered, hleads⟩

/-- With a NaN in `a` the value of `a < a + 1` does not count as true, and yet its test passes on to
    what stands behind it. -/
theorem nan_slips_through :
    Gen.jumpUnless belowNext .first "end" oneVariable =
      .ok () (oneVariable.append belowNextTest) ∧
    Gen.expression belowNext .first oneVariable = .ok () (oneVariable.append belowNextValue) ∧
    isTrue ((idle.run nanContents belowNextValue).registers .first) = false ∧
    labelIndex? (belowNextTest ++ [.yield, .label "end"]) "end" = some 3 ∧
    (idle.after (belowNextTest ++ [.yield, .label "end"]) 2 (.placed 0 nanContents)).index = 2 := by
  refine ⟨jumpUnless_belowNext, expression_belowNext, ?_, ?_, ?_⟩
  · decide +kernel
  · decide
  · decide +kernel

end Processor
end ChipScript
