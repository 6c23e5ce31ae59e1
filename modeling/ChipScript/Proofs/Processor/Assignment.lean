import ChipScript.Proofs.Processor.Condition
import ChipScript.Proofs.Refinement.Program

/-!
# Expressions and assignments keep to their registers

The code of an expression computes its first operand where the result will be and takes the lowest
free registers for the others, so that a part that is ready could be overwritten by the next one.
It never is (`expression_is_framed`): the value ends in the destination, and every other register in
use is as it was, whatever the registers hold, NaN included.

The destination of an assignment is the register of the variable, which the value may read.  The
code then goes through a register of its own, unless it is a single instruction, so that the value
is the one that the registers gave before (`assignment_reads_old_value`).
-/

namespace ChipScript

/-! ## States and expressions -/

/-- No command stands in an expression that has been read. -/
theorem Parser.noCommand_of_expression {s s' : ParserState} {node : Node}
    (hread : Parser.expression s = .ok node s') : node.hasCommand = false := by
  obtain ⟨tokens, -, hderived⟩ := Grammar.expression_sound hread
  exact hderived.noCommand

namespace Processor

variable {P : Processor} {g g' : Generator} {dst : Register} {node : Node}

/-! ## Expressions -/

/-- **The code of an expression is correct and keeps to its registers.**  It has no label, jump or
    branch, and run wherever it stands, from any contents, it leaves the value that the expression
    has in these contents in the destination.  Loads and random numbers are asked for in the order
    of the expression, so that the traces agree.  No other register in use is changed, and those in
    use afterwards are those from before. -/
theorem expression_is_framed {t t' : ParserState} (hread : Parser.expression t = .ok node t')
    (hseparate : g.Separate) (hreserved : dst ∈ g.registers.reserved) (hspares : g.Spares dst node)
    (hgenerated : Gen.expression node dst g = .ok () g') :
    ∃ code, g' = g.append code ∧ (∀ instruction ∈ code, instruction.isStraight = true) ∧
      g'.registers.reserved = g.registers.reserved ∧
      ∀ (P : Processor) (s : Contents Float),
        (∀ (whole : List Instruction) (index : Nat), code <+: whole.drop index →
          P.Leads whole (.placed index s) (.placed (index + code.length) (P.run s code))) ∧
        P.evaluate (g.environment s.registers) node s.trace =
          .ok ((P.run s code).registers dst) (P.run s code).trace ∧
        ∀ r ∈ g.registers.reserved, r ≠ dst → (P.run s code).registers r = s.registers r := by
  obtain ⟨code, hstraight, rfl⟩ := Gen.expression_eq_ok hseparate.nodup hgenerated
  refine ⟨code, rfl, hstraight, rfl, fun P s => ?_⟩
  have hvalued := Calculator.expression_values P.calculator (g.environment s.registers) node
    (Parser.noCommand_of_expression hread) dst g code s hseparate.accounted hreserved
    (.inr (.inr hspares)) (fun _ _ => rfl) hgenerated
  exact ⟨fun whole index hplaced => leads_run hstraight hvalued.goesOn hplaced, hvalued.value,
    hvalued.kept⟩

/-- The expression `a * 2 + (a - 1) * a`, which has a part waiting while another is computed. -/
def sumOfProducts : Node :=
  .arithmetic .add (.arithmetic .mul (.read "a" none none) (.number "2"))
    (.arithmetic .mul (.arithmetic .sub (.read "a" none none) (.number "1")) (.read "a" none none))

/-- A state of reading in front of the expression. -/
def beforeSumOfProducts : ParserState where
  ahead := List.map (fun token => ⟨token, .start⟩)
    [.identifier "a", .symbol .star, .number "2", .symbol .plus, .symbol .leftParen,
      .identifier "a", .symbol .minus, .number "1", .symbol .rightParen, .symbol .star,
      .identifier "a"]
  previous := none
  started := true
  declared := ["a"]
  loopDepth := 0

theorem expression_sumOfProducts :
    ∃ t, Parser.expression beforeSumOfProducts = .ok sumOfProducts t :=
  ⟨_, rfl⟩

/-- Its code, which keeps the first product while the second one is computed beside it. -/
def sumOfProductsCode : List Instruction :=
  [.arithmetic .mul .first (.register .last) (.immediate "2"),
    .arithmetic .sub ⟨1⟩ (.register .last) (.immediate "1"),
    .arithmetic .mul ⟨1⟩ (.register ⟨1⟩) (.register .last),
    .arithmetic .add .first (.register .first) (.register ⟨1⟩)]

theorem expression_is_framed_sumOfProducts :
    Gen.expression sumOfProducts .first oneVariable =
      .ok () (oneVariable.append sumOfProductsCode) ∧
    ∀ s : Contents Float,
      idle.evaluate (oneVariable.environment s.registers) sumOfProducts s.trace =
        .ok ((idle.run s sumOfProductsCode).registers .first)
          (idle.run s sumOfProductsCode).trace ∧
      (idle.run s sumOfProductsCode).registers .last = s.registers .last := by
  have hgenerated : Gen.expression sumOfProducts .first oneVariable =
      .ok () (oneVariable.append sumOfProductsCode) := rfl
  obtain ⟨t, hread⟩ := expression_sumOfProducts
  have hspares : oneVariable.Spares .first sumOfProducts := fun _ _ hknown =>
    absurd (Generator.mem_owned hknown) (by decide)
  obtain ⟨code, hsame, -, -, hframed⟩ :=
    expression_is_framed hread oneVariable_disciplined.separate (by decide) hspares hgenerated
  obtain rfl := Generator.append_injective hsame
  refine ⟨hgenerated, fun s => ?_⟩
  obtain ⟨-, hvalue, hkept⟩ := hframed idle s
  exact ⟨hvalue, hkept .last (by decide) (by decide)⟩

/-! ## Assignments -/

/-- **An assignment reads the old value.**  Run from any contents, the code of `x = e` leaves in the
    register of `x` the value that `e` has in the contents before it, however often and wherever `e`
    reads `x`, and the registers of the other variables are as they were. -/
theorem assignment_reads_old_value {t t' : ParserState} {x : String} {e : Node} {r : Register}
    (scratch : Register) (hread : Parser.expression t = .ok e t') (hseparate : g.Separate)
    (hnoDevice : g.device? x = none) (hdeclared : g.variableTable.lookup x = some r)
    (hgenerated : Gen.assignment x none none e scratch g = .ok () g') :
    ∃ code, g' = g.append code ∧
      ∀ (P : Processor) (s : Contents Float),
        (∀ (whole : List Instruction) (index : Nat), code <+: whole.drop index →
          P.Leads whole (.placed index s) (.placed (index + code.length) (P.run s code))) ∧
        P.evaluate (g.environment s.registers) e s.trace =
          .ok ((P.run s code).registers r) (P.run s code).trace ∧
        ∀ (y : String) (r' : Register), y ≠ x → g.variableTable.lookup y = some r' →
          (P.run s code).registers r' = s.registers r' := by
  rcases Gen.assignment_cases hgenerated with ⟨config, hknown, -⟩ | ⟨-, hstored⟩
  · rw [hnoDevice] at hknown
    cases hknown
  · obtain ⟨r', code, hfound, -, -, rfl, hstraight, hvalues⟩ := Calculator.variableStore_values
      (V := Float) hseparate (Parser.noCommand_of_expression hread) hstored
    obtain rfl : r = r' := Option.some.inj (hdeclared.symm.trans hfound)
    refine ⟨code, rfl, fun P s => ?_⟩
    have hvalued := hvalues P.calculator (g.environment s.registers) s fun _ _ => rfl
    refine ⟨fun whole index hplaced => leads_run hstraight hvalued.goesOn hplaced,
      hvalued.value, ?_⟩
    intro y r' hother hknown
    refine hvalued.kept r' (hseparate.reserved hknown) ?_
    rintro rfl
    exact hother (hseparate.injective hknown hdeclared)

/-- The code of `a = a * 2 + (a - 1) * a`, which is moved to `a` when nothing reads it any more. -/
def sumOfProductsStore : List Instruction :=
  [.arithmetic .mul ⟨1⟩ (.register .last) (.immediate "2"),
    .arithmetic .sub ⟨2⟩ (.register .last) (.immediate "1"),
    .arithmetic .mul ⟨2⟩ (.register ⟨2⟩) (.register .last),
    .arithmetic .add ⟨1⟩ (.register ⟨1⟩) (.register ⟨2⟩),
    .move .last (.register ⟨1⟩)]

theorem assignment_reads_old_value_sumOfProducts :
    Gen.assignment "a" none none sumOfProducts .first oneVariable =
      .ok () (oneVariable.append sumOfProductsStore) ∧
    ∀ s : Contents Float,
      idle.evaluate (oneVariable.environment s.registers) sumOfProducts s.trace =
        .ok ((idle.run s sumOfProductsStore).registers .last)
          (idle.run s sumOfProductsStore).trace := by
  have hgenerated : Gen.assignment "a" none none sumOfProducts .first oneVariable =
      .ok () (oneVariable.append sumOfProductsStore) := rfl
  obtain ⟨t, hread⟩ := expression_sumOfProducts
  obtain ⟨code, hsame, hassigned⟩ := assignment_reads_old_value .first hread
    oneVariable_disciplined.separate (by decide)
    (show oneVariable.variableTable.lookup "a" = some .last by decide) hgenerated
  obtain rfl := Generator.append_injective hsame
  exact ⟨hgenerated, fun s => (hassigned idle s).2.1⟩

end Processor
end ChipScript
