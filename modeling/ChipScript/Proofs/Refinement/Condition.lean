import ChipScript.Proofs.Refinement.Expression

/-!
# Code for conditions jumps unless they hold

`jumpUnless_follows`: the code for a condition follows its evaluation, and goes on behind itself if
the value counts as true, and at the label otherwise.  Comparisons, connectives and negations are
tested without computing their value, which is why the cases are told apart here: a comparison is
inverted, both sides of a conjunction may jump, and either side of a disjunction passes over the
jump.
-/

namespace ChipScript

section Branches

variable {V : Type} [LinearOrder V] {chip : Chip V} {env : Environment V} {g g' : Generator}
  {dst : Register} {m m' : Machine V} {label : String} {target : Nat}

/-! ## Branches -/

/-- A branch whose comparison holds goes to its label. -/
theorem branch_taken {comparison : Comparison} {a b : Operand} (code later : List Instruction)
    (hplaced : (g.append (code ++ .branch comparison a b label :: later)).code.toList <+: chip.code)
    (hreached : At (g.append code) m) (hfound : labelIndex? chip.code label = some target)
    (hholds : comparison.compares (chip.read m a) (chip.read m b) = true) :
    chip.Leads m { m with index := target } := by
  have hstep := Chip.leads_perform hreached.running (fetch hplaced hreached)
  simp only [Chip.perform, hholds, if_true, Chip.jumpTo, hfound] at hstep
  exact hstep

/-- A branch whose comparison does not hold is passed. -/
theorem branch_passed {comparison : Comparison} {a b : Operand} (code later : List Instruction)
    (hplaced : (g.append (code ++ .branch comparison a b label :: later)).code.toList <+: chip.code)
    (hreached : At (g.append code) m)
    (hfails : comparison.compares (chip.read m a) (chip.read m b) = false) :
    chip.Leads m m.next ∧ At (g.append (code ++ [.branch comparison a b label])) m.next := by
  refine leads_next code later hplaced hreached ?_ rfl rfl
  simp only [Chip.perform, hfails]
  rfl

/-- A relative branch whose comparison holds passes over instructions. -/
theorem branchRelative_taken {comparison : Comparison} {a b : Operand} {offset : Nat}
    (code later : List Instruction)
    (hplaced : (g.append (code ++ .branchRelative comparison a b offset :: later)).code.toList <+:
      chip.code)
    (hreached : At (g.append code) m)
    (hholds : comparison.compares (chip.read m a) (chip.read m b) = true) :
    chip.Leads m { m with index := m.index + offset } := by
  have hstep := Chip.leads_perform hreached.running (fetch hplaced hreached)
  have hmoved : m.moveBy (offset : Int) = { m with index := m.index + offset } := by
    have hforward : (0 : Int) ≤ m.index + offset := by omega
    have hindex : ((m.index : Int) + offset).toNat = m.index + offset := by omega
    simp only [Machine.moveBy, if_pos hforward, hindex]
  simp only [Chip.perform, hholds, if_true, hmoved] at hstep
  exact hstep

theorem branchRelative_passed {comparison : Comparison} {a b : Operand} {offset : Int}
    (code later : List Instruction)
    (hplaced : (g.append (code ++ .branchRelative comparison a b offset :: later)).code.toList <+:
      chip.code)
    (hreached : At (g.append code) m)
    (hfails : comparison.compares (chip.read m a) (chip.read m b) = false) :
    chip.Leads m m.next ∧
      At (g.append (code ++ [.branchRelative comparison a b offset])) m.next := by
  refine leads_next code later hplaced hreached ?_ rfl rfl
  simp only [Chip.perform, hfails]
  rfl

theorem jump_taken (code later : List Instruction)
    (hplaced : (g.append (code ++ .jump label :: later)).code.toList <+: chip.code)
    (hreached : At (g.append code) m) (hfound : labelIndex? chip.code label = some target) :
    chip.LeadsIn 1 m { m with index := target } := by
  have hstep := Chip.leadsIn_perform hreached.running (fetch hplaced hreached)
  simp only [Chip.perform, Chip.jumpTo, hfound] at hstep
  exact hstep

/-! ## Tests -/

/-- A single branch is a test: it goes to its label unless the condition holds. -/
theorem branch_decides {comparison : Comparison} {a b : Operand} {holds : Bool}
    (code : List Instruction)
    (hplaced : (g.append (code ++ [.branch comparison a b label])).code.toList <+: chip.code)
    (hreached : At (g.append code) m) (hfound : labelIndex? chip.code label = some target)
    (hdecides : comparison.compares (chip.read m a) (chip.read m b) = !holds) :
    chip.Leads m { m with
      index := if holds then (g.append (code ++ [.branch comparison a b label])).code.size
        else target } := by
  cases holds with
  | true =>
    obtain ⟨hleads, hreached'⟩ := branch_passed code [] hplaced hreached hdecides
    rw [if_pos rfl, ← hreached'.index]
    exact hleads
  | false => exact branch_taken code [] hplaced hreached hfound hdecides

/-- Both sides of a conjunction may go to the label. -/
theorem conjunction_decides {a b : Operand} (code : List Instruction)
    (hplaced : (g.append (code ++ [.branch .less a Gen.one label,
      .branch .less b Gen.one label])).code.toList <+: chip.code)
    (hreached : At (g.append code) m) (hfound : labelIndex? chip.code label = some target) :
    chip.Leads m { m with
      index := if chip.setting.holds (chip.read m a) && chip.setting.holds (chip.read m b)
        then (g.append (code ++ [.branch .less a Gen.one label,
          .branch .less b Gen.one label])).code.size
        else target } := by
  have hfirst : Comparison.less.compares (chip.read m a) (chip.read m Gen.one) =
      !chip.setting.holds (chip.read m a) := by
    rw [read_one, Interpretation.compares_one_less]
  have hsecond : Comparison.less.compares (chip.read m b) (chip.read m Gen.one) =
      !chip.setting.holds (chip.read m b) := by
    rw [read_one, Interpretation.compares_one_less]
  cases hleft : chip.setting.holds (chip.read m a) with
  | false =>
    rw [hleft] at hfirst
    exact branch_taken code _ hplaced hreached hfound hfirst
  | true =>
    rw [hleft] at hfirst
    obtain ⟨hleads, hreached'⟩ := branch_passed code _ hplaced hreached hfirst
    rw [List.append_cons] at hplaced ⊢
    exact hleads.trans (branch_decides (m := m.next) _ hplaced hreached' hfound hsecond)

/-- Either side of a disjunction passes over the jump. -/
theorem disjunction_decides {a b : Operand} (code : List Instruction)
    (hplaced : (g.append (code ++ [.branchRelative .greaterEqual a Gen.one 3,
      .branchRelative .greaterEqual b Gen.one 2, .jump label])).code.toList <+: chip.code)
    (hreached : At (g.append code) m) (hfound : labelIndex? chip.code label = some target) :
    chip.Leads m { m with
      index := if chip.setting.holds (chip.read m a) || chip.setting.holds (chip.read m b)
        then (g.append (code ++ [.branchRelative .greaterEqual a Gen.one 3,
          .branchRelative .greaterEqual b Gen.one 2, .jump label])).code.size
        else target } := by
  -- The offsets count from the jump itself, so that both lead behind the jump of the test.
  have hsize := hreached.index
  have hfirst : Comparison.greaterEqual.compares (chip.read m a) (chip.read m Gen.one) =
      chip.setting.holds (chip.read m a) := by
    rw [read_one, Interpretation.compares_one]
  have hsecond : Comparison.greaterEqual.compares (chip.read m b) (chip.read m Gen.one) =
      chip.setting.holds (chip.read m b) := by
    rw [read_one, Interpretation.compares_one]
  -- A first side that holds goes behind the jump at once, and else the second side decides.
  cases hleft : chip.setting.holds (chip.read m a) with
  | true =>
    rw [hleft] at hfirst
    have hleads := branchRelative_taken code _ hplaced hreached hfirst
    simpa [Generator.append_code_size, hsize, Nat.add_assoc] using hleads
  | false =>
    rw [hleft] at hfirst
    obtain ⟨hleads, hreached₁⟩ := branchRelative_passed code _ hplaced hreached hfirst
    refine hleads.trans ?_
    rw [List.append_cons] at hplaced
    cases hright : chip.setting.holds (chip.read m b) with
    | true =>
      rw [hright] at hsecond
      have hleads' := branchRelative_taken _ _ hplaced hreached₁ hsecond
      simpa [Generator.append_code_size, Machine.next, hsize, Nat.add_assoc] using hleads'
    | false =>
      rw [hright] at hsecond
      obtain ⟨hleads', hreached₂⟩ := branchRelative_passed _ _ hplaced hreached₁ hsecond
      rw [List.append_cons] at hplaced
      exact hleads'.trans (jump_taken _ [] hplaced hreached₂ hfound).leads

/-! ## Conditions -/

/-- The value of a condition, from the values that decide it. -/
def Interpretation.decided (I : Interpretation V) : Node → List V → V
  | .comparison operator _ _, [a, b] => I.truth (operator.compares a b)
  | .connective operator _ _, [a, b] => I.truth (operator.apply (I.holds a) (I.holds b))
  | .not _, [a] => I.truth (!I.holds a)
  | _, values => values.headD (I.number 0.0)

theorem evaluate_eq_tested (S : Setting V) (env : Environment V) (condition : Node) :
    evaluate S env condition =
      evaluateAll S env (Gen.tested condition) >>= fun vs => return S.decided condition vs := by
  cases condition <;>
    simp [Gen.tested, evaluateAll, Interpretation.decided, evaluate]

/-- The test of a condition, when the operands that decide it are there. -/
theorem testCode_decides {condition : Node} {operands : List Operand} (code : List Instruction)
    (hlength : operands.length = (Gen.tested condition).length)
    (hplaced : (g.append (code ++ Gen.testCode label condition operands)).code.toList <+: chip.code)
    (hreached : At (g.append code) m) (hfound : labelIndex? chip.code label = some target) :
    chip.Leads m { m with
      index := if chip.setting.holds (chip.setting.decided condition (operands.map (chip.read m)))
        then (g.append (code ++ Gen.testCode label condition operands)).code.size
        else target } := by
  -- All conditions but the three kinds of operations are tested by their own value.
  have halone : ∀ a : Operand,
      Gen.testCode label condition operands = [.branch .less a Gen.one label] →
      chip.setting.decided condition (operands.map (chip.read m)) = chip.read m a →
      chip.Leads m { m with
        index := if chip.setting.holds (chip.setting.decided condition
            (operands.map (chip.read m)))
          then (g.append (code ++ Gen.testCode label condition operands)).code.size
          else target } := by
    intro a htest hvalue
    rw [htest] at hplaced ⊢
    refine branch_decides code hplaced hreached hfound ?_
    rw [hvalue, read_one, Interpretation.compares_one_less]
  cases condition with
  | comparison operator left right =>
    obtain ⟨a, b, rfl⟩ := List.length_eq_two.1 hlength
    refine branch_decides code hplaced hreached hfound ?_
    simp [Interpretation.decided]
  | connective operator left right =>
    obtain ⟨a, b, rfl⟩ := List.length_eq_two.1 hlength
    simp only [List.map_cons, List.map_nil, Interpretation.decided, Interpretation.holds_truth]
    cases operator with
    | and => exact conjunction_decides code hplaced hreached hfound
    | or => exact disjunction_decides code hplaced hreached hfound
  | not operand =>
    obtain ⟨a, rfl⟩ := List.length_eq_one_iff.1 hlength
    refine branch_decides code hplaced hreached hfound ?_
    simp [Interpretation.decided, Interpretation.compares_one]
  | _ =>
    obtain ⟨a, rfl⟩ := List.length_eq_one_iff.1 hlength
    exact halone a rfl rfl

/-- **Code for a condition follows its evaluation**, and goes on behind itself if the value counts
    as true, and at the label otherwise. -/
theorem jumpUnless_follows {condition : Node} (hpure : condition.hasCommand = false)
    (hdisciplined : g.Disciplined) (hreserved : dst ∈ g.registers.reserved) (hfree : dst ∉ g.owned)
    (hreached : At g m) (hstands : ∀ name, Stands g env m.registers name)
    (h : Gen.jumpUnless condition dst label g = .ok () g')
    (hplaced : g'.code.toList <+: chip.code) (hfound : labelIndex? chip.code label = some target) :
    Follows chip m (fun v m' =>
      m'.index = (if chip.setting.holds v then g'.code.size else target) ∧
        KeepsOthers g dst m.contents m'.contents)
      (evaluate chip.setting env condition m.trace) := by
  rw [Gen.jumpUnless_eq] at h
  have hparts : ∀ node ∈ Gen.tested condition, node.hasCommand = false := by
    cases condition <;> simp_all [Gen.tested, Node.hasCommand]
  obtain ⟨operands, code, rfl, hlength, hfollows⟩ :=
    withOperands_follows hparts hdisciplined.accounted hreserved
      (.inr fun node _ name _ hknown => hfree (Generator.mem_owned hknown)) hreached
      (fun _ _ name _ => hstands name) h hplaced
  rw [evaluate_eq_tested]
  refine hfollows.bind ?_
  intro vs m' hrunning hdone
  obtain ⟨hreached', rfl, hkept⟩ := hdone
  exact ⟨_, testCode_decides code hlength hplaced hreached' hfound, hrunning, rfl, rfl, hkept⟩

end Branches
end ChipScript
