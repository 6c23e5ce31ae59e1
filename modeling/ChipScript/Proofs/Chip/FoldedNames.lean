import ChipScript.Proofs.Chip.Names
import ChipScript.Proofs.Node.Folding
import ChipScript.Proofs.Node.NormalForm

/-!
# Names that are folded away

Code generation leaves out what a literal condition rules out, and with it the names that are
declared there.  Simplification folds conditions first and so rules out more: a name that was
declared in a part which only folding rules out is known in the code of the script and unknown in
the code of what is left of it.  If the name is still used further on, there is no code any more
(`declaration_folded_away`).

Main result: `undeclared_is_folded_away`.  This is the only way in which simplification takes a name
from a script.
-/

namespace ChipScript

namespace Node

mutual

/-- The names that are introduced in a part which is ruled out by a condition that is not known as
    it is written, and only known after it has been folded. -/
@[simp] def foldedAway : Node → List String
  | block body => foldedAwayInAll body
  | loop body => body.foldedAway
  | whileLoop condition body =>
    match condition.truth?, condition.simplify.truth? with
    | some false, _ => []
    | none, some false => body.introduced
    | _, _ => body.foldedAway
  | branch condition thenBranch elseBranch =>
    match condition.truth?, condition.simplify.truth? with
    | some true, _ => thenBranch.foldedAway
    | some false, _ => foldedAwayInOption elseBranch
    | none, some true => thenBranch.foldedAway ++ introducedInOption elseBranch
    | none, some false => thenBranch.introduced ++ foldedAwayInOption elseBranch
    | none, none => thenBranch.foldedAway ++ foldedAwayInOption elseBranch
  | _ => []

/-- The names that are folded away in several statements. -/
@[simp] def foldedAwayInAll : List Node → List String
  | [] => []
  | node :: rest => node.foldedAway ++ foldedAwayInAll rest

/-- The names that are folded away in a statement which may be missing. -/
@[simp] def foldedAwayInOption : Option Node → List String
  | none => []
  | some node => node.foldedAway

end

/-! ## Expressions -/

theorem needs_ofValue (value : Float) : (ofValue value).needs = [] :=
  ofValue_cases value (fun _ => rfl) fun _ => rfl

theorem needsInEach_simplify {arguments : List Node}
    (heach : ∀ node ∈ arguments, ∀ name ∈ node.simplify.needs, name ∈ node.needs) :
    ∀ name ∈ needsInEach (simplifyArguments arguments), name ∈ needsInEach arguments := by
  induction arguments with
  | nil => exact fun name hmem => hmem
  | cons node rest ih =>
    have hlater := ih fun n hmem => heach n (List.mem_cons_of_mem _ hmem)
    simp only [simplifyArguments, needsInEach, List.mem_append]
    exact fun name hmem => hmem.imp (heach node (by simp) name) (hlater name)

/-! ### What folding leaves needs no more names than what is folded -/

theorem needs_foldNot (operand : Node) :
    ∀ name ∈ (foldNot operand).needs, name ∈ operand.needs := by
  rw [foldNot]
  split
  · simp [needs_ofValue]
  · exact fun name hmem => hmem

theorem needs_foldArithmetic (operator : Arithmetic) (left right : Node) :
    ∀ name ∈ (foldArithmetic operator left right).needs, name ∈ left.needs ++ right.needs := by
  rw [foldArithmetic]
  split
  · simp [needs_ofValue]
  · -- An identity leaves one of the operands, zero, or both under another operator.
    rcases simplifyIdentity_cases operator left right with hsame | hsame | hsame | ⟨hsame, -⟩
    all_goals rw [hsame]
    · exact fun name hmem => List.mem_append_left _ hmem
    · exact fun name hmem => List.mem_append_right _ hmem
    · simp
    · simp

theorem needs_foldComparison (operator : Comparison) (left right : Node) :
    ∀ name ∈ (foldComparison operator left right).needs, name ∈ left.needs ++ right.needs := by
  rw [foldComparison]
  split
  · simp [needs_ofValue]
  · simp

theorem needs_foldConnective (operator : Connective) (left right : Node) :
    ∀ name ∈ (foldConnective operator left right).needs, name ∈ left.needs ++ right.needs := by
  rw [foldConnective]
  split
  · simp [needs_ofValue]
  · simp

/-- What is left of a choice needs no more names if its parts need no more.  Of a choice whose
    condition is known as it is written, only the part that is chosen counts, before and after. -/
theorem needs_simplify_choice {condition thenValue elseValue : Node}
    (hfirst : ∀ name ∈ condition.simplify.needs, name ∈ condition.needs)
    (hsecond : ∀ name ∈ thenValue.simplify.needs, name ∈ thenValue.needs)
    (hthird : ∀ name ∈ elseValue.simplify.needs, name ∈ elseValue.needs) :
    ∀ name ∈ (choice condition thenValue elseValue).simplify.needs,
      name ∈ (choice condition thenValue elseValue).needs := by
  rw [simplify, foldChoice]
  -- A choice that is known needs the names of one value from the start, and a choice that becomes
  -- known needs fewer.
  cases hknown : condition.value? with
  | some v =>
    rw [simplify_of_value? hknown, hknown]
    simp only [needs, hknown]
    split
    · exact hsecond
    · exact hthird
  | none =>
    simp only [needs, hknown, List.mem_append]
    split
    · split
      · exact fun name hmem => .inr (.inl (hsecond name hmem))
      · exact fun name hmem => .inr (.inr (hthird name hmem))
    · next hunknown =>
      simp only [needs, hunknown, List.mem_append]
      exact fun name hmem => hmem.imp (hfirst name) (Or.imp (hsecond name) (hthird name))

/-- **A simplified expression needs no more names.** -/
theorem needs_simplify (node : Node) : ∀ name ∈ node.simplify.needs, name ∈ node.needs := by
  have hoperands : ∀ {left right : Node} {name : String},
      (∀ part ∈ [left, right], ∀ name ∈ part.simplify.needs, name ∈ part.needs) →
      name ∈ left.simplify.needs ++ right.simplify.needs → name ∈ left.needs ++ right.needs := by
    intro left right name heach hmem
    rw [List.mem_append] at hmem ⊢
    exact hmem.imp (heach left (by simp) name) (heach right (by simp) name)
  -- Folding needs no name that its operands do not need, and those have been simplified before.
  induction node using partsInduction with
  | step node ih =>
    cases node with
    | read name index property =>
      cases index with
      | none => exact fun _ hmem => hmem
      | some index =>
        have hwithin := ih index (by simp [parts])
        simp only [simplify, simplifyIndex, needs, needsInOption, List.mem_cons]
        rintro other (rfl | hmem)
        · exact .inl rfl
        · exact .inr (hwithin other hmem)
    | call name arguments => exact needsInEach_simplify ih
    | not operand =>
      intro name hmem
      exact ih operand (by simp [parts]) name (needs_foldNot _ name hmem)
    | arithmetic operator left right =>
      intro name hmem
      exact hoperands ih (needs_foldArithmetic operator _ _ name hmem)
    | comparison operator left right =>
      intro name hmem
      exact hoperands ih (needs_foldComparison operator _ _ name hmem)
    | connective operator left right =>
      intro name hmem
      exact hoperands ih (needs_foldConnective operator _ _ name hmem)
    | choice condition thenValue elseValue =>
      apply needs_simplify_choice
      · exact ih condition (by simp [parts])
      · exact ih thenValue (by simp [parts])
      · exact ih elseValue (by simp [parts])
    | _ => exact fun name hmem => hmem

/-- A simplified target and value need no more names. -/
theorem needs_simplifyAssign (name : String) (index : Option Node) (property : Option String)
    (value : Node) :
    ∀ other ∈ (assign name (simplifyIndex index) property value.simplify).needs,
      other ∈ (assign name index property value).needs := by
  have hwithin : ∀ other ∈ needsInOption (simplifyIndex index), other ∈ needsInOption index := by
    cases index with
    | none => exact fun other hmem => hmem
    | some index => exact needs_simplify index
  simp only [needs, List.mem_cons, List.mem_append]
  exact fun other => Or.imp id (Or.imp (needs_simplify value other) (hwithin other))

/-! ## Statements -/

theorem introduced_bodyOf (left : Option Node) :
    (bodyOf left).introduced = introducedInOption left := by
  cases left <;> rfl

theorem needs_bodyOf (left : Option Node) : (bodyOf left).needs = needsInOption left := by
  cases left <;> rfl

/-- A condition that is known as it is written is not folded. -/
theorem truth?_simplify {condition : Node} {b : Bool} (h : condition.truth? = some b) :
    condition.simplify.truth? = some b := by
  obtain ⟨v, hvalue, -⟩ := Option.map_eq_some_iff.1 h
  rw [simplify_of_value? hvalue, h]

/-- What happens to the names of a statement: those that it introduces are still introduced or are
    folded away, and only names that are folded away are needed more. -/
structure KeepsNames (node : Node) : Prop where
  introduced : ∀ name ∈ node.introduced,
    name ∈ introducedInOption node.simplifyStatement? ∨ name ∈ node.foldedAway
  needs : ∀ name ∈ needsInOption node.simplifyStatement?,
    name ∈ node.needs ∨ name ∈ node.foldedAway

/-- What comes after a statement and needs a name that the simplified statement does not introduce
    needs it from outside the statement as well, unless the name is folded away. -/
theorem KeepsNames.needs_after {node : Node} (h : KeepsNames node) {name : String}
    {needed folded : List String} (hlater : name ∈ needed ∨ name ∈ folded)
    (hmissing : name ∉ introducedInOption node.simplifyStatement?) :
    (name ∈ needed ∧ name ∉ node.introduced) ∨ name ∈ node.foldedAway ∨ name ∈ folded := by
  rcases hlater with hneeded | hfolded
  · by_cases hbefore : name ∈ node.introduced
    · -- It was introduced before and is not any more.
      exact .inr (.inl ((h.introduced name hbefore).resolve_left hmissing))
    · exact .inl ⟨hneeded, hbefore⟩
  · exact .inr (.inr hfolded)

section Sequences

variable {body : List Node} (heach : ∀ node ∈ body, KeepsNames node)

include heach

theorem introducedInAll_simplify : ∀ name ∈ introducedInAll body,
    name ∈ introducedInAll (simplifyStatements body) ∨ name ∈ foldedAwayInAll body := by
  induction body with
  | nil => exact fun name hmem => .inl hmem
  | cons node rest ih =>
    have hfirst := (heach node (by simp)).introduced
    have hlater := ih fun n hmem => heach n (List.mem_cons_of_mem _ hmem)
    have hleft : introducedInAll (simplifyStatements (node :: rest)) =
        introducedInOption node.simplifyStatement? ++
          introducedInAll (simplifyStatements rest) := by
      rw [simplifyStatements]
      cases node.simplifyStatement? <;> rfl
    rw [hleft]
    simp only [introducedInAll, foldedAwayInAll, List.mem_append]
    rintro name (hnow | hafter)
    · exact (hfirst name hnow).imp .inl .inl
    · exact (hlater name hafter).imp .inr .inr

theorem needsInSequence_simplify : ∀ name ∈ needsInSequence (simplifyStatements body),
    name ∈ needsInSequence body ∨ name ∈ foldedAwayInAll body := by
  induction body with
  | nil => exact fun name hmem => .inl hmem
  | cons node rest ih =>
    have hfirst := heach node (by simp)
    have hlater := ih fun n hmem => heach n (List.mem_cons_of_mem _ hmem)
    -- A statement that is dropped introduces nothing that could hide a need behind it.
    have hleft : ∀ name, name ∈ needsInSequence (simplifyStatements (node :: rest)) →
        name ∈ needsInOption node.simplifyStatement? ∨
        name ∈ needsInSequence (simplifyStatements rest) ∧
          name ∉ introducedInOption node.simplifyStatement? := by
      intro name
      rw [simplifyStatements]
      cases node.simplifyStatement? with
      | none => exact fun hafter => .inr ⟨hafter, by simp⟩
      | some left => simp
    intro name hmem
    simp only [needsInSequence, foldedAwayInAll, List.mem_append, List.mem_filter,
      decide_eq_true_eq]
    rcases hleft name hmem with hnow | ⟨hafter, hmissing⟩
    · exact (hfirst.needs name hnow).imp .inl .inl
    · exact (hfirst.needs_after (hlater name hafter) hmissing).imp .inr id

end Sequences

section Branches

variable {condition thenBranch : Node} {elseBranch : Option Node} (hfirst : KeepsNames thenBranch)
  (hsecond : ∀ node ∈ elseBranch.toList, KeepsNames node)

include hsecond in
theorem introduced_simplifyElse : ∀ name ∈ introducedInOption elseBranch,
    name ∈ introducedInOption (simplifyElse? elseBranch) ∨
    name ∈ foldedAwayInOption elseBranch := by
  cases elseBranch with
  | none => exact fun name hmem => .inl hmem
  | some node => exact (hsecond node (by simp)).introduced

include hsecond in
theorem needs_simplifyElse : ∀ name ∈ needsInOption (simplifyElse? elseBranch),
    name ∈ needsInOption elseBranch ∨ name ∈ foldedAwayInOption elseBranch := by
  cases elseBranch with
  | none => exact fun name hmem => .inl hmem
  | some node => exact (hsecond node (by simp)).needs

include hfirst hsecond

/-- If the condition is known as it is written, the same branch is left out before and after. -/
theorem branch_keepsNames_of_known {b : Bool} (hknown : condition.truth? = some b) :
    KeepsNames (.branch condition thenBranch elseBranch) := by
  have hfolded := truth?_simplify hknown
  cases b with
  | true =>
    constructor
    · simpa only [introduced, foldedAway, simplifyStatement?, hknown, hfolded]
        using hfirst.introduced
    · simpa only [Node.needs, foldedAway, simplifyStatement?, hknown, hfolded] using hfirst.needs
  | false =>
    constructor
    · simpa only [introduced, foldedAway, simplifyStatement?, hknown, hfolded]
        using introduced_simplifyElse hsecond
    · simpa only [Node.needs, foldedAway, simplifyStatement?, hknown, hfolded]
        using needs_simplifyElse hsecond

/-- If the condition is known only after it has been folded, what the other branch introduces is
    folded away. -/
theorem branch_keepsNames_of_folded {b : Bool} (hknown : condition.truth? = none)
    (hfolded : condition.simplify.truth? = some b) :
    KeepsNames (.branch condition thenBranch elseBranch) := by
  cases b with
  | true =>
    constructor
    · simp only [introduced, foldedAway, simplifyStatement?, hknown, hfolded, List.mem_append]
      -- What the lost branch introduces is folded away.
      rintro name (hnow | hother)
      · exact (hfirst.introduced name hnow).imp id .inl
      · exact .inr (.inr hother)
    · simp only [Node.needs, foldedAway, simplifyStatement?, hknown, hfolded, List.mem_append]
      intro name hmem
      exact (hfirst.needs name hmem).imp (.inr ∘ .inl) .inl
  | false =>
    constructor
    · simp only [introduced, foldedAway, simplifyStatement?, hknown, hfolded, List.mem_append]
      rintro name (hnow | hother)
      · exact .inr (.inl hnow)
      · exact (introduced_simplifyElse hsecond name hother).imp id .inr
    · simp only [Node.needs, foldedAway, simplifyStatement?, hknown, hfolded, List.mem_append,
        List.mem_filter, decide_eq_true_eq]
      intro name hmem
      rcases needs_simplifyElse hsecond name hmem with hneeded | hgone
      · -- The lost branch may have introduced the name before the other one needs it.
        by_cases hbefore : name ∈ thenBranch.introduced
        · exact .inr (.inl hbefore)
        · exact .inl (.inr (.inr ⟨hneeded, hbefore⟩))
      · exact .inr (.inr hgone)

/-- If the condition stays unknown, both branches stay. -/
theorem branch_keepsNames_of_unknown (hknown : condition.truth? = none)
    (hfolded : condition.simplify.truth? = none) :
    KeepsNames (.branch condition thenBranch elseBranch) := by
  constructor
  · simp only [introduced, foldedAway, simplifyStatement?, hknown, hfolded, introducedInOption,
      introduced_bodyOf, List.mem_append]
    rintro name (hnow | hother)
    · exact (hfirst.introduced name hnow).imp .inl .inl
    · exact (introduced_simplifyElse hsecond name hother).imp .inr .inr
  · simp only [Node.needs, foldedAway, simplifyStatement?, hknown, hfolded, needsInOption,
      introduced_bodyOf, needs_bodyOf, List.mem_append, List.mem_filter, decide_eq_true_eq]
    -- What the second branch needs may have been introduced in the first.
    rintro name (hasked | hnow | ⟨hother, hmissing⟩)
    · exact .inl (.inl (needs_simplify condition name hasked))
    · exact (hfirst.needs name hnow).imp (.inr ∘ .inl) .inl
    · have hafter := hfirst.needs_after (needs_simplifyElse hsecond name hother) hmissing
      exact hafter.imp (.inr ∘ .inr) id

theorem branch_keepsNames : KeepsNames (.branch condition thenBranch elseBranch) := by
  cases hknown : condition.truth? with
  | some b => exact branch_keepsNames_of_known hfirst hsecond hknown
  | none =>
    cases hfolded : condition.simplify.truth? with
    | some b => exact branch_keepsNames_of_folded hfirst hsecond hknown hfolded
    | none => exact branch_keepsNames_of_unknown hfirst hsecond hknown hfolded

end Branches

theorem whileLoop_keepsNames {condition body : Node} (hwithin : KeepsNames body) :
    KeepsNames (.whileLoop condition body) := by
  -- A condition may be known from the start, become known, or stay unknown.
  cases hknown : condition.truth? with
  | some b =>
    have hfolded := truth?_simplify hknown
    cases b with
    | true =>
      constructor
      · simpa only [introduced, foldedAway, simplifyStatement?, hknown, hfolded, introducedInOption,
          introduced_bodyOf] using hwithin.introduced
      · simpa only [Node.needs, foldedAway, simplifyStatement?, hknown, hfolded, needsInOption,
          needs_bodyOf] using hwithin.needs
    | false =>
      constructor
      · simp [hknown]
      · simp [simplifyStatement?, hfolded]
  | none =>
    cases hfolded : condition.simplify.truth? with
    | some b =>
      cases b with
      | true =>
        constructor
        · simpa only [introduced, foldedAway, simplifyStatement?, hknown, hfolded,
            introducedInOption, introduced_bodyOf] using hwithin.introduced
        · simp only [Node.needs, foldedAway, simplifyStatement?, hknown, hfolded, needsInOption,
            needs_bodyOf, List.mem_append]
          exact fun name hmem => (hwithin.needs name hmem).imp .inr id
      | false =>
        constructor
        · simp only [introduced, foldedAway, hknown, hfolded]
          exact fun name hmem => .inr hmem
        · simp [simplifyStatement?, hfolded]
    | none =>
      constructor
      · simpa only [introduced, foldedAway, simplifyStatement?, hknown, hfolded, introducedInOption,
          introduced_bodyOf] using hwithin.introduced
      · simp only [Node.needs, foldedAway, simplifyStatement?, hknown, hfolded, needsInOption,
          needs_bodyOf, List.mem_append]
        rintro name (hasked | hmem)
        · exact .inl (.inl (needs_simplify condition name hasked))
        · exact (hwithin.needs name hmem).imp .inr id

theorem block_keepsNames {body : List Node} (heach : ∀ node ∈ body, KeepsNames node) :
    KeepsNames (.block body) := by
  have hintroduces := introducedInAll_simplify heach
  have hwants := needsInSequence_simplify heach
  constructor
  · intro name hmem
    have hfound := hintroduces name hmem
    simp only [simplifyStatement?]
    split
    · -- An empty block is dropped, and has no names.
      next hnothing =>
      rw [hnothing] at hfound
      exact hfound
    · exact hfound
  · intro name hmem
    simp only [simplifyStatement?] at hmem
    split at hmem
    · cases hmem
    · exact hwants name hmem

/-- **No name is lost but those that are folded away.** -/
theorem keepsNames (node : Node) : KeepsNames node := by
  induction node using partsInduction with
  | step node ih =>
    -- Blocks, choices and loops lose statements, and the others only simplify their values.
    cases node with
    | block body => exact block_keepsNames ih
    | branch condition thenBranch elseBranch =>
      apply branch_keepsNames
      · exact ih thenBranch (by simp [parts])
      · exact fun n hmem => ih n (by simp_all [parts])
    | whileLoop condition body => exact whileLoop_keepsNames (ih body (by simp [parts]))
    | loop body =>
      have hwithin := ih body (by simp [parts])
      constructor
      · simpa only [introduced, foldedAway, simplifyStatement?, introducedInOption,
          introduced_bodyOf] using hwithin.introduced
      · simpa only [Node.needs, foldedAway, simplifyStatement?, needsInOption,
          needs_bodyOf] using hwithin.needs
    | declare name value =>
      constructor
      · exact fun other hmem => .inl hmem
      · exact fun other hmem => .inl (needs_simplify value other hmem)
    | assign name index property value =>
      constructor
      · exact fun other hmem => .inl hmem
      · exact fun other hmem => .inl (needs_simplifyAssign name index property value other hmem)
    | _ =>
      constructor
      · simp
      · exact fun other hmem => .inl (needs_simplify _ other hmem)

end Node

/-! ## Scripts -/

/-- **A script that loses its code for want of a name has folded the name away and still uses it.**
    The name was introduced where a condition ruled it out that is known only after folding. -/
theorem undeclared_is_folded_away {program : Program} {code : List Instruction} {name : String}
    (hcompiles : program.code = .ok code)
    (hfails : program.simplify.code = .error (.undeclared name)) :
    name ∈ Node.foldedAwayInAll program ∧ name ∈ Node.needsInSequence program.simplify := by
  have hneeded := Program.needs_of_undeclared hfails
  have heach : ∀ node ∈ program, Node.KeepsNames node := fun node _ => Node.keepsNames node
  refine ⟨?_, hneeded⟩
  rcases Node.needsInSequence_simplify heach name hneeded with hbefore | hfolded
  · -- A script with code needs no names from outside.
    rw [Program.needs_of_code hcompiles] at hbefore
    cases hbefore
  · exact hfolded

/-- The script `if (1 > 2) { var x = 1; } var y = x;`. -/
def lateUse : Program :=
  [.branch (.comparison .greater (.number "1") (.number "2"))
      (.block [.declare "x" (.number "1")]) none,
    .declare "y" (.read "x" none none)]

/-- Its code, which tests the condition and has a register for both names. -/
def lateUseCode : List Instruction :=
  [.branch .lessEqual (.immediate "1") (.immediate "2") "if001", .move ⟨15⟩ (.immediate "1"),
    .label "if001", .move ⟨14⟩ (.register ⟨15⟩)]

theorem lateUse_code : lateUse.code = .ok lateUseCode := by
  decide +kernel

theorem lateUse_simplify_code : lateUse.simplify.code = .error (.undeclared "x") := by
  decide +kernel

theorem undeclared_is_folded_away_lateUse :
    lateUse.code = .ok lateUseCode ∧ lateUse.simplify.code = .error (.undeclared "x") ∧
    "x" ∈ Node.foldedAwayInAll lateUse ∧ "x" ∈ Node.needsInSequence lateUse.simplify :=
  ⟨lateUse_code, lateUse_simplify_code,
    undeclared_is_folded_away lateUse_code lateUse_simplify_code⟩

/-- A script that is read and has code may have no code after simplification: the declaration of `x`
    is gone, and its use is still there. -/
theorem declaration_folded_away :
    Program.ofSource "if (1 > 2) { var x = 1; } var y = x;" = .ok lateUse ∧
    lateUse.code = .ok lateUseCode ∧ lateUse.simplify.code = .error (.undeclared "x") := by
  refine ⟨?_, lateUse_code, lateUse_simplify_code⟩
  decide +kernel

end ChipScript
