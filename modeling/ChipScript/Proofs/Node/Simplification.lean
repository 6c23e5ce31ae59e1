import ChipScript.Node.Simplify
import ChipScript.Proofs.Node.Parts

/-!
# What simplification leaves

Simplification is one function over trees of all shapes.  What it leaves is said here once, so that
no proof about simplified trees has to go through its rules again.

* `simplify_cases`: of an expression it leaves a number, what is left of one of the parts, or the
  expression with simplified parts.
* `simplifyStatement?_block_cases`, `simplifyStatement?_whileLoop_cases` and
  `simplifyStatement?_branch_cases`: what it leaves of the statements that it may drop or replace.
-/

namespace ChipScript.Node

/-! ## Parts one by one -/

theorem simplifyArguments_eq_map (arguments : List Node) :
    simplifyArguments arguments = arguments.map simplify := by
  induction arguments with
  | nil => rfl
  | cons argument rest ih => rw [simplifyArguments, ih, List.map_cons]

theorem simplifyIndex_eq_map (index : Option Node) : simplifyIndex index = index.map simplify := by
  cases index <;> rfl

theorem simplifyStatements_eq_filterMap (body : List Node) :
    simplifyStatements body = body.filterMap simplifyStatement? := by
  induction body with
  | nil => rfl
  | cons statement rest ih =>
    rw [simplifyStatements, List.filterMap_cons]
    cases simplifyStatement? statement <;> simp [ih]

theorem mem_simplifyIndex {index : Option Node} {part : Node} :
    part ∈ (simplifyIndex index).toList ↔ ∃ node ∈ index.toList, node.simplify = part := by
  cases index <;> simp [simplifyIndex, eq_comm]

theorem mem_simplifyStatements {body : List Node} {left : Node} :
    left ∈ simplifyStatements body ↔ ∃ node ∈ body, node.simplifyStatement? = some left := by
  rw [simplifyStatements_eq_filterMap, List.mem_filterMap]

theorem simplifyElse?_eq_some {elseBranch : Option Node} {left : Node} :
    simplifyElse? elseBranch = some left ↔
      ∃ node ∈ elseBranch.toList, node.simplifyStatement? = some left := by
  cases elseBranch <;> simp [simplifyElse?]

/-! ## Expressions -/

/-- A tree with its parts replaced, if it is no statement. -/
def mapParts (f : Node → Node) : Node → Node
  | read name index property => read name (index.map f) property
  | call name arguments => call name (arguments.map f)
  | not operand => not (f operand)
  | arithmetic operator left right => arithmetic operator (f left) (f right)
  | comparison operator left right => comparison operator (f left) (f right)
  | connective operator left right => connective operator (f left) (f right)
  | choice condition thenValue elseValue => choice (f condition) (f thenValue) (f elseValue)
  | node => node

theorem parts_mapParts {node : Node} (hvalue : node.isStatement = false) (f : Node → Node) :
    (node.mapParts f).parts = node.parts.map f := by
  cases node with
  | read name index property => cases index <;> rfl
  | block _ | declare _ _ | assign _ _ _ _ | loop _ | whileLoop _ _ | branch _ _ _ | control _ =>
    cases hvalue
  | _ => rfl

/-- A property of all parts is kept by what keeps it on each of them. -/
theorem forall_parts_mapParts {node : Node} (hvalue : node.isStatement = false) {f : Node → Node}
    {p : Node → Prop} (heach : ∀ part ∈ node.parts, p (f part)) :
    ∀ part ∈ (node.mapParts f).parts, p part := by
  rw [parts_mapParts hvalue]
  exact List.forall_mem_map.2 heach

/-- Whether a node is a number, written as such, that equals a given one. -/
def isLiteral (n : Float) (node : Node) : Bool :=
  node.literal?.any (· == n)

/-- Whether an arithmetic operation has an operand that can be dropped, or that decides it. -/
def hasNeutral : Arithmetic → Node → Node → Bool
  | .mul, left, right =>
    left.isLiteral 1.0 || right.isLiteral 1.0 || left.isLiteral 0.0 || right.isLiteral 0.0
  | .add, left, right => left.isLiteral 0.0 || right.isLiteral 0.0
  | .sub, _, right => right.isLiteral 0.0
  | .div, _, _ => false

/-- Without a neutral operand an operation stays, and with one it becomes an operand, or zero. -/
theorem simplifyIdentity_cases (operator : Arithmetic) (left right : Node) :
    simplifyIdentity operator left right = left ∨ simplifyIdentity operator left right = right ∨
    simplifyIdentity operator left right = .number "0" ∨
    (simplifyIdentity operator left right = .arithmetic operator left right ∧
      hasNeutral operator left right = false) := by
  -- The tests follow each other as in the definition, and the last case is that all have failed.
  cases operator with
  | mul =>
    unfold simplifyIdentity
    dsimp only
    split
    · exact .inl rfl
    · split
      · exact .inr (.inl rfl)
      · split
        · exact .inr (.inr (.inl rfl))
        · exact .inr (.inr (.inr ⟨rfl, by simp_all [hasNeutral, isLiteral]⟩))
  | add =>
    unfold simplifyIdentity
    dsimp only
    split
    · exact .inl rfl
    · split
      · exact .inr (.inl rfl)
      · exact .inr (.inr (.inr ⟨rfl, by simp_all [hasNeutral, isLiteral]⟩))
  | sub =>
    unfold simplifyIdentity
    dsimp only
    split
    · exact .inl rfl
    · exact .inr (.inr (.inr ⟨rfl, by simp_all [hasNeutral, isLiteral]⟩))
  | div => exact .inr (.inr (.inr ⟨rfl, rfl⟩))

/-- **What simplification leaves of an expression**: the text of a value, zero, what is left of one
    of its parts, or the expression with simplified parts. -/
theorem simplify_cases (node : Node) :
    (∃ value, node.simplify = ofValue value) ∨ node.simplify = number "0" ∨
    (∃ part ∈ node.parts, node.simplify = part.simplify) ∨
    node.simplify = node.mapParts simplify := by
  cases node with
  | read name index property =>
    rw [simplify, simplifyIndex_eq_map]
    exact .inr (.inr (.inr rfl))
  | call name arguments =>
    rw [simplify, simplifyArguments_eq_map]
    exact .inr (.inr (.inr rfl))
  | not operand =>
    rw [simplify, foldNot]
    split
    · exact .inl ⟨_, rfl⟩
    · exact .inr (.inr (.inr rfl))
  | arithmetic operator left right =>
    rw [simplify, foldArithmetic]
    split
    · exact .inl ⟨_, rfl⟩
    · -- Unknown operands still leave the identities, which keep one side or leave zero.
      rcases simplifyIdentity_cases operator left.simplify right.simplify with
        hsame | hsame | hsame | ⟨hsame, -⟩
      all_goals rw [hsame]
      · exact .inr (.inr (.inl ⟨left, by simp [parts], rfl⟩))
      · exact .inr (.inr (.inl ⟨right, by simp [parts], rfl⟩))
      · exact .inr (.inl rfl)
      · exact .inr (.inr (.inr rfl))
  | comparison operator left right =>
    rw [simplify, foldComparison]
    split
    · exact .inl ⟨_, rfl⟩
    · exact .inr (.inr (.inr rfl))
  | connective operator left right =>
    rw [simplify, foldConnective]
    split
    · exact .inl ⟨_, rfl⟩
    · exact .inr (.inr (.inr rfl))
  | choice condition thenValue elseValue =>
    rw [simplify, foldChoice]
    split
    · split
      · exact .inr (.inr (.inl ⟨thenValue, by simp [parts], rfl⟩))
      · exact .inr (.inr (.inl ⟨elseValue, by simp [parts], rfl⟩))
    · exact .inr (.inr (.inr rfl))
  | _ => exact .inr (.inr (.inr rfl))

theorem simplify_of_isStatement {node : Node} (hstatement : node.isStatement = true) :
    node.simplify = node := by
  cases node <;> first | rfl | cases hstatement

/-! ## Statements -/

/-- A block is left unless nothing is left in it. -/
theorem simplifyStatement?_block_cases {body : List Node} {left : Node}
    (h : (block body).simplifyStatement? = some left) :
    simplifyStatements body ≠ [] ∧ left = block (simplifyStatements body) := by
  rw [simplifyStatement?] at h
  split at h
  · cases h
  · next hkept =>
    obtain rfl := Option.some.inj h
    exact ⟨hkept, rfl⟩

/-- What is left of a loop with a condition: an endless loop, or the loop if its condition stays
    unknown. -/
theorem simplifyStatement?_whileLoop_cases {condition body left : Node}
    (h : (whileLoop condition body).simplifyStatement? = some left) :
    (condition.simplify.truth? = some true ∧ left = loop (bodyOf body.simplifyStatement?)) ∨
    (condition.simplify.truth? = none ∧
      left = whileLoop condition.simplify (bodyOf body.simplifyStatement?)) := by
  rw [simplifyStatement?] at h
  split at h
  · next hdecided =>
    obtain rfl := Option.some.inj h
    exact .inl ⟨hdecided, rfl⟩
  · cases h
  · next hunknown =>
    obtain rfl := Option.some.inj h
    exact .inr ⟨hunknown, rfl⟩

/-- What is left of a choice: what is left of one of its branches, or the choice if its condition
    stays unknown. -/
theorem simplifyStatement?_branch_cases {condition thenBranch left : Node}
    {elseBranch : Option Node}
    (h : (branch condition thenBranch elseBranch).simplifyStatement? = some left) :
    (condition.simplify.truth? = some true ∧ thenBranch.simplifyStatement? = some left) ∨
    (condition.simplify.truth? = some false ∧ simplifyElse? elseBranch = some left) ∨
    (condition.simplify.truth? = none ∧
      left = branch condition.simplify (bodyOf thenBranch.simplifyStatement?)
        (simplifyElse? elseBranch)) := by
  rw [simplifyStatement?] at h
  split at h
  · next hdecided => exact .inl ⟨hdecided, h⟩
  · next hdecided => exact .inr (.inl ⟨hdecided, h⟩)
  · next hunknown =>
    obtain rfl := Option.some.inj h
    exact .inr (.inr ⟨hunknown, rfl⟩)

end ChipScript.Node
